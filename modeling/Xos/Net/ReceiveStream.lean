import Xos.Net.Identity
import Xos.Net.TcpBuffers

/-!
# The bytes that a connection receives

`tcp_on_data` acknowledges a payload in order whatever the state, and stores it only in ESTABLISHED, into a buffer that
is half as large as the advertised window.
-/
namespace Xos.Net

open Lib Relation TcpConnection List

/-- The other end of a connection: its first sequence number, and all the bytes that it sends. -/
structure Peer where
  irs : BitVec 32
  stream : List Byte

namespace Peer

/-- A segment of the other end at place `p`, when it has seen so many bytes acknowledged. SYN is at place 0, the bytes follow,
and FIN is behind them. There are at most 8192 bytes from what was seen on, and a segment can be late. -/
structure Sends (peer : Peer) (seen : Nat) (a : Arrival) (p : Nat) : Prop where
  number : htonl a.header.seqNum = peer.irs + BitVec.ofNat 32 p
  syn : a.header.flags &&& tcpSyn ≠ 0 ↔ p = 0
  bytes : a.payload <+: peer.stream.drop (p - 1)
  fin : a.header.flags &&& tcpFin ≠ 0 → p ≠ 0 ∧ p - 1 + a.payload.length = peer.stream.length
  window : a.payload ≠ [] → p - 1 + a.payload.length ≤ seen + 8192
  near : p ≤ seen + 8194
  recent : seen < p + 2 ^ 31

def Acked (peer : Peer) (counted : Nat) (ack : BitVec 32) : Prop :=
  ack = peer.irs + BitVec.ofNat 32 (1 + counted) ∨ ack = peer.irs + BitVec.ofNat 32 (2 + counted) ∧ counted = peer.stream.length

variable {peer : Peer} {seen p counted : Nat} {a : Arrival}

theorem Sends.place (sends : peer.Sends seen a p) {q : Nat} (same : htonl a.header.seqNum = peer.irs + BitVec.ofNat 32 q)
    (behind : seen < q) (ahead : q ≤ seen + 8194) : p = q := by
  have equal : BitVec.ofNat 32 p = BitVec.ofNat 32 q := by
    have sums := sends.number.symm.trans same
    bv_omega
  have near := sends.near
  have recent := sends.recent
  have residues := congrArg BitVec.toNat equal
  rw [BitVec.toNat_ofNat, BitVec.toNat_ofNat] at residues
  omega

theorem Acked.take {ack : BitVec 32} (acked : peer.Acked counted ack) (sends : peer.Sends seen a p) (behind : seen ≤ counted)
    (ahead : counted ≤ seen + 8192) (within : counted ≤ peer.stream.length) (ordered : htonl a.header.seqNum = ack) :
    peer.Acked (counted + a.payload.length)
        ((if a.header.flags &&& (tcpSyn ||| tcpFin) ≠ 0 then ack + 1 else ack) + BitVec.ofNat 32 a.payload.length) ∧
      a.payload <+: peer.stream.drop counted ∧ counted + a.payload.length ≤ peer.stream.length ∧
      counted + a.payload.length ≤ seen + 8192 := by
  have flags (later : p ≠ 0) : a.header.flags &&& (tcpSyn ||| tcpFin) = a.header.flags &&& tcpFin := by
    have plain : a.header.flags &&& tcpSyn = 0 := by
      by_contra syn
      exact later (sends.syn.mp syn)
    rw [BitVec.and_or_distrib_left, plain]
    exact BitVec.zero_or
  have bytes := sends.bytes
  have window := sends.window
  have fin := sends.fin
  rcases acked with rfl | ⟨rfl, all⟩
  · -- the bytes up to here have come in, and FIN has not
    obtain rfl := sends.place ordered (by omega) (by omega)
    rw [Nat.add_sub_cancel_left] at bytes window fin
    have length := bytes.length_le
    rw [length_drop] at length
    refine ⟨?_, bytes, by omega, ?_⟩
    · rw [flags (by omega)]
      split
      next ends =>
        obtain ⟨-, all⟩ := fin ends
        exact .inr ⟨by bv_omega, all⟩
      next => exact .inl (by bv_omega)
    · by_cases none : a.payload = []
      · rw [none]
        exact ahead
      · exact window none
  · obtain rfl := sends.place ordered (by omega) (by omega)
    -- FIN has come in, and there is nothing behind it
    have none : a.payload = [] := by
      rw [drop_of_length_le (by omega), prefix_nil] at bytes
      exact bytes
    rw [none, length_nil, flags (by omega), if_neg]
    · exact ⟨.inr ⟨BitVec.add_zero _, all⟩, nil_prefix, within, ahead⟩
    · intro ends
      have last := (fin ends).2
      omega

end Peer

instance (t : Tcp) (a : Arrival) (i : Nat) : Decidable (t.Takes a i) :=
  decidable_of_iff (t.resolve a = some i ∧ a.header.flags &&& tcpRst = 0 ∧
    ((t.conns i).state = .synSent ∨ htonl a.header.seqNum = (t.conns i).ack))
    ⟨fun both => ⟨both.1, both.2.1, both.2.2⟩, fun takes => ⟨takes.known, takes.plain, takes.ordered⟩⟩

/-- The tables, what `tcp_receive` has returned from a connection, the number of payload bytes that were counted into
its acknowledgement number, and how many of them the other end has seen acknowledged. -/
structure ReceiveStream where
  tcp : Tcp
  returned : List Byte
  counted : Nat
  seen : Nat

namespace ReceiveStream

def returns (t : Tcp) (i : Nat) : TcpCall → List Byte
  | .receive connId dataLen => if t.getConn connId = some i then (tcpReceive t connId dataLen).1 else []
  | _ => []

/-- `conn->ack += payload_len`. -/
def counts (t : Tcp) (i : Nat) : TcpCall → Nat
  | .segment src data dataLen _ _ =>
    if 20 ≤ dataLen.toNat ∧ t.Takes (arrival src data dataLen) i then (arrival src data dataLen).payloadLen.toNat else 0
  | _ => 0

def FromPeer (peer : Peer) (i : Nat) (s : ReceiveStream) : TcpCall → Prop
  | .segment src data dataLen _ _ => 20 ≤ dataLen.toNat → s.tcp.Takes (arrival src data dataLen) i →
    ∃ p, peer.Sends s.seen (arrival src data dataLen) p
  | _ => True

def Fits (t : Tcp) (i : Nat) : TcpCall → Prop
  | .segment src data dataLen _ _ => 20 ≤ dataLen.toNat → t.Takes (arrival src data dataLen) i →
    (arrival src data dataLen).payload ≠ [] →
    (t.conns i).state = .established ∧ (t.conns i).unread.length + (arrival src data dataLen).payload.length ≤ recvBufSize
  | _ => True

inductive Step (peer : Peer) (i : Nat) (s : ReceiveStream) : ReceiveStream → Prop where
  | call {call : TcpCall} {t' : Tcp} {emitted : Emitted} (claimed : (s.tcp.conns i).claimed = true) (peers : FromPeer peer i s call)
    (fits : Fits s.tcp i call) (ran : call.run s.tcp = .ok (t', emitted)) :
    Step peer i s ⟨t', s.returned ++ returns s.tcp i call, s.counted + counts s.tcp i call, s.seen⟩
  | sees {seen : Nat} (more : s.seen ≤ seen) (most : seen ≤ s.counted) : Step peer i s { s with seen := seen }

/-- The bytes that were counted are those that were returned and those that are stored, and they are the first bytes of the other
end. -/
structure Whole (peer : Peer) (i : Nat) (s : ReceiveStream) : Prop where
  stored : s.returned ++ (s.tcp.conns i).unread = peer.stream.take s.counted
  within : s.counted ≤ peer.stream.length
  acked : (s.tcp.conns i).state = .established → peer.Acked s.counted (s.tcp.conns i).ack

end ReceiveStream

/-- A connection has received the same as another, and if it is open it is in the same state. -/
structure TcpConnection.ReceivesAs (conn' conn : TcpConnection) : Prop where
  unread : conn'.unread = conn.unread
  same : conn'.state.Open → conn'.state = conn.state ∧ conn'.ack = conn.ack

theorem TcpConnection.ReceivesAs.refl (conn : TcpConnection) : conn.ReceivesAs conn := ⟨rfl, fun _ => ⟨rfl, rfl⟩⟩

variable {flush : Bool}

/-- What the `switch` does with a payload that comes in in ESTABLISHED and fits. -/
theorem Switched.receives {t t₁ : Tcp} {i : Nat} {header : TcpHeader} {payload : List Byte}
    (switched : Switched t i header payload t₁ flush)
    (fits : payload ≠ [] → (t.conns i).state = .established ∧ (t.conns i).unread.length + payload.length ≤ recvBufSize) :
    (t₁.conns i).unread = (t.conns i).unread ++ payload ∧ ((t₁.conns i).state.Open → (t₁.conns i).ack = (t.conns i).ack ∧
      ((t₁.conns i).state = (t.conns i).state ∨ (t₁.conns i).state = .established ∧ ((t.conns i).state = .synReceived ∨
        (t.conns i).state = .synSent ∧ header.flags &&& (tcpSyn ||| tcpAck) = tcpSyn ||| tcpAck))) := by
  have none (other : (t.conns i).state ≠ .established) : payload = [] := by
    by_contra some
    exact other (fits some).1
  cases switched with
  | connected state flags =>
    rw [none (by rw [state]; decide), append_nil, Tcp.setConn_conns_self]
    exact ⟨rfl, fun _ => ⟨rfl, .inr ⟨rfl, .inr ⟨state, flags⟩⟩⟩⟩
  | accepted state flags listener =>
    rw [none (by rw [state]; decide), append_nil, Tcp.setConn_conns_self]
    exact ⟨rfl, fun _ => ⟨rfl, .inr ⟨rfl, .inl state⟩⟩⟩
  | advanced stays =>
    rw [Tcp.setConn_conns_self]
    rcases (t.conns i).advance_cases header.flags payload with ⟨state', seq, same, moved⟩ | ⟨closing, -, same⟩
    · generalize kept : (if (t.conns i).state = .established then (t.conns i).store payload else t.conns i) = conn at same
      have ack : conn.ack = (t.conns i).ack := by
        rw [← kept]
        split <;> rfl
      have unread : conn.unread = (t.conns i).unread ++ payload := by
        rw [← kept]
        split
        next =>
          by_cases empty : payload = []
          · rw [empty, store_nil, append_nil]
          · exact unread_store (fits empty).2
        next other => rw [none other, append_nil]
      rw [same]
      refine ⟨unread, fun open' => ⟨ack, .inl ?_⟩⟩
      rcases moved with ⟨unmoved, -⟩ | ⟨ending, -⟩
      · exact unmoved
      · exact absurd open' ending.not_open
    · rw [same, none, append_nil]
      · exact ⟨rfl, fun open' => absurd open' (close_not_open _)⟩
      · rintro state
        simp [TcpState.Closing, state] at closing

variable {call : TcpCall}

namespace ReceiveStream

structure Inv (peer : Peer) (i : Nat) (s : ReceiveStream) : Prop where
  stored : s.returned ++ (s.tcp.conns i).unread = peer.stream.take s.counted
  within : s.counted ≤ peer.stream.length
  behind : s.seen ≤ s.counted
  ahead : s.counted ≤ s.seen + 8192
  early : (s.tcp.conns i).state = .synSent → s.counted = 0
  acked : (s.tcp.conns i).state = .synReceived ∨ (s.tcp.conns i).state = .established → peer.Acked s.counted (s.tcp.conns i).ack

variable {peer : Peer} {i counted seen : Nat} {t t' : Tcp} {returned : List Byte}

theorem Inv.keep (inv : Inv peer i ⟨t, returned, counted, seen⟩) (same : (t'.conns i).ReceivesAs (t.conns i)) :
    Inv peer i ⟨t', returned, counted, seen⟩ := by
  refine ⟨?_, inv.within, inv.behind, inv.ahead, fun sent => ?_, fun states => ?_⟩
  · rw [same.unread]
    exact inv.stored
  · exact inv.early ((same.same (.inl sent)).1.symm.trans sent)
  · obtain ⟨state, ack⟩ := same.same (.inr states)
    rw [ack]
    rw [state] at states
    exact inv.acked states

variable {emitted : Emitted}

theorem Inv.output (inv : Inv peer i ⟨t, returned, counted, seen⟩) (output : t.Output flush t' emitted) :
    Inv peer i ⟨t', returned, counted, seen⟩ := by
  obtain ⟨tail, seq, now⟩ := output.conn i
  refine inv.keep ?_
  rw [now]
  exact ⟨rfl, fun _ => ⟨rfl, rfl⟩⟩

section Taken

variable {a : Arrival} {p : Nat} {conn : TcpConnection}

theorem acked_acknowledge (sends : peer.Sends seen a p)
    (size : a.payload.length = a.payloadLen.toNat) (acked : peer.Acked counted conn.ack)
    (behind : seen ≤ counted) (ahead : counted ≤ seen + 8192) (within : counted ≤ peer.stream.length) (idle : conn.state ≠ .synSent)
    (ordered : htonl a.header.seqNum = conn.ack) :
    peer.Acked (counted + a.payload.length) (conn.acknowledge a.header a.payloadLen).ack ∧ a.payload <+: peer.stream.drop counted ∧
      counted + a.payload.length ≤ peer.stream.length ∧ counted + a.payload.length ≤ seen + 8192 := by
  have number : a.payloadLen.setWidth 32 = BitVec.ofNat 32 a.payload.length := by
    rw [size, BitVec.ofNat_toNat]
  simp only [acknowledge, if_neg idle, number]
  exact acked.take sends behind ahead within ordered

theorem acked_of_syn (sends : peer.Sends seen a p) (none : a.payloadLen = 0) (sent : conn.state = .synSent)
    (flags : a.header.flags &&& (tcpSyn ||| tcpAck) = tcpSyn ||| tcpAck) :
      peer.Acked 0 (conn.acknowledge a.header a.payloadLen).ack := by
  have part (mask : Byte) (inside : mask &&& tcpSyn = tcpSyn) : a.header.flags &&& mask &&& tcpSyn = a.header.flags &&& tcpSyn := by
    rw [BitVec.and_assoc, inside]
  have syn : a.header.flags &&& tcpSyn ≠ 0 := by
    rw [← part (tcpSyn ||| tcpAck) (by decide), flags]
    decide
  have counts : a.header.flags &&& (tcpSyn ||| tcpFin) ≠ 0 := by
    intro zero
    rw [← part (tcpSyn ||| tcpFin) (by decide), zero] at syn
    exact syn (by decide)
  have first := sends.number
  rw [sends.syn.mp syn] at first
  simp only [acknowledge, if_pos sent, if_pos counts, none, first]
  exact .inl (by simp)

end Taken

section

variable (inv : Inv peer i ⟨t, returned, counted, seen⟩)
include inv

theorem Inv.taken {a : Arrival} {p : Nat} (takes : t.Takes a i)
    (size : a.payload.length = a.payloadLen.toNat) (sends : peer.Sends seen a p)
    (fits : a.payload ≠ [] → (t.conns i).state = .established ∧ (t.conns i).unread.length + a.payload.length ≤ recvBufSize)
    (switched : Switched (t.setConn i ((t.conns i).acknowledge a.header a.payloadLen)) i a.header a.payload t' flush) :
    Inv peer i ⟨t', returned, counted + a.payloadLen.toNat, seen⟩ := by
  obtain ⟨stored, within, behind, ahead, early, acked⟩ := inv
  dsimp only at *
  have none (other : (t.conns i).state ≠ .established) : a.payload = [] := by
    by_contra some
    exact other (fits some).1
  have next (states : (t.conns i).state = .synReceived ∨ (t.conns i).state = .established) := by
    have idle : (t.conns i).state ≠ .synSent := by
      rcases states with state | state <;> rw [state] <;> decide
    exact acked_acknowledge sends size (acked states) behind ahead within idle (takes.ordered.resolve_left idle)
  -- in any other state there is no payload by the condition
  obtain ⟨bytes, within', ahead'⟩ : a.payload <+: peer.stream.drop counted ∧ counted + a.payload.length ≤ peer.stream.length ∧
      counted + a.payload.length ≤ seen + 8192 := by
    by_cases established : (t.conns i).state = .established
    · exact (next (.inr established)).2
    · rw [none established]
      exact ⟨List.nil_prefix, within, ahead⟩
  obtain ⟨unread, moves⟩ := switched.receives (by rwa [Tcp.setConn_conns_self])
  rw [Tcp.setConn_conns_self] at unread moves
  have kept : ((t.conns i).acknowledge a.header a.payloadLen).state = (t.conns i).state := rfl
  rw [kept] at moves
  rw [← size]
  refine ⟨?_, within', behind.trans (Nat.le_add_right ..), ahead', fun sent => ?_, fun states => ?_⟩
  · have same : ((t.conns i).acknowledge a.header a.payloadLen).unread = (t.conns i).unread := rfl
    rw [unread, same, ← append_assoc, stored, take_add, ← prefix_iff_eq_take.mp bytes]
  · -- nothing leads back to SYN_SENT
    obtain ⟨-, stays | ⟨established, -⟩⟩ := moves (.inl sent)
    · have before := stays.symm.trans sent
      rw [none (by rw [before]; decide)]
      exact early before
    · cases sent.symm.trans established
  · -- it was established, or becomes so by an acknowledgement, or by the answer to SYN
    obtain ⟨ack, stays | ⟨-, received | ⟨sent, flags⟩⟩⟩ := moves (.inr states)
    all_goals
      dsimp only at states ⊢
      rw [ack]
    · rw [stays] at states
      exact (next states).1
    · exact (next (.inl received)).1
    · have empty := none (by rw [sent]; decide)
      have zero : a.payloadLen = 0 := by
        rw [empty] at size
        exact BitVec.eq_of_toNat_eq size.symm
      rw [early sent, empty]
      exact acked_of_syn sends zero sent flags

theorem Inv.delivered {a : Arrival} {id : BitVec 16} {random : BitVec 32}
    (claimed : (t.conns i).claimed = true) (size : a.payload.length = a.payloadLen.toNat)
      (peers : t.Takes a i → ∃ p, peer.Sends seen a p)
    (fits : t.Takes a i → a.payload ≠ [] →
      (t.conns i).state = .established ∧ (t.conns i).unread.length + a.payload.length ≤ recvBufSize)
    (way : Delivered t a id random t' flush) :
      Inv peer i ⟨t', returned, counted + if t.Takes a i then a.payloadLen.toNat else 0, seen⟩ := by
  -- a segment that the connection does not take leaves it, or closes it
  have others (ignores : ¬t.Takes a i) (same : (t'.conns i).ReceivesAs (t.conns i)) :
      Inv peer i ⟨t', returned, counted + if t.Takes a i then a.payloadLen.toNat else 0, seen⟩ := by
    rw [if_neg ignores]
    exact inv.keep same
  have unchanged {k : Nat} {conn : TcpConnection} (other : i ≠ k) : ((t.setConn k conn).conns i).ReceivesAs (t.conns i) := by
    rw [Tcp.setConn_conns_of_ne _ other]
    exact .refl _
  cases way with
  | refused unknown closed => exact others (fun takes => by cases unknown.symm.trans takes.known) (.refl _)
  | opened unknown opens =>
    refine others (fun takes => by cases unknown.symm.trans takes.known) (unchanged ?_)
    rintro rfl
    cases claimed.symm.trans (Tcp.of_freeConn opens.free).2
  | reset known rst =>
    rename_i k
    refine others (fun takes => rst takes.plain) ?_
    by_cases here : i = k
    · subst here
      rw [Tcp.setConn_conns_self]
      exact ⟨rfl, fun open' => absurd open' (close_not_open _)⟩
    · exact unchanged here
  | unordered known plain idle other =>
    refine others (fun takes => ?_) (.refl _)
    cases known.symm.trans takes.known
    exact takes.ordered.elim idle other
  | taken takes switched =>
    rename_i k
    by_cases here : i = k
    · subst here
      obtain ⟨p, sends⟩ := peers takes
      rw [if_pos takes]
      exact inv.taken takes size sends (fits takes) switched
    · refine others (fun also => here (Option.some.inj (also.known.symm.trans takes.known))) ?_
      rw [switched.conns_of_ne here]
      exact unchanged here

theorem Inv.segment {src : Ipv4Addr} {data : Nat → Byte} {dataLen id : BitVec 16}
    {random : BitVec 32} (claimed : (t.conns i).claimed = true)
    (peers : FromPeer peer i ⟨t, returned, counted, seen⟩ (.segment src data dataLen id random))
    (fits : Fits t i (.segment src data dataLen id random))
      (ran : (TcpCall.segment src data dataLen id random).run t = .ok (t', emitted)) :
    Inv peer i ⟨t', returned, counted + counts t i (.segment src data dataLen id random), seen⟩ := by
  obtain ⟨received, delivered, same⟩ := Outcome.of_bind ran
  cases same
  by_cases short : dataLen.toNat < 20
  · rw [tcpOnData_short t src data id random short] at delivered
    cases delivered
    rw [counts, if_neg fun both => absurd both.1 (Nat.not_le.mpr short)]
    exact inv
  · have long := Nat.not_lt.mp short
    obtain ⟨t₁, flush, way, output, -⟩ := tcpOnData_ensures t src data id random long received delivered
    have size : (arrival src data dataLen).payload.length = (arrival src data dataLen).payloadLen.toNat := by simp [arrival, bytesFrom]
    have inv := (inv.delivered claimed size (peers long) (fits long) way).output output
    simpa only [counts, long, true_and] using inv

theorem Inv.receive {connId : BitVec 32} (dataLen : BitVec 16) (found : t.getConn connId = some i) :
    Inv peer i ⟨(tcpReceive t connId dataLen).2, returned ++ (tcpReceive t connId dataLen).1, counted, seen⟩ := by
  have most : min dataLen.toNat ((t.conns i).recvHead - (t.conns i).recvTail).toNat ≤ (t.conns i).unread.length := by
    rw [length_unread]
    exact Nat.min_le_right ..
  have split := unread_read most
  have stored : returned ++ (t.conns i).unread = peer.stream.take counted := inv.stored
  rw [split, ← append_assoc] at stored
  simp only [tcpReceive, found]
  refine ⟨?_, inv.within, inv.behind, inv.ahead, ?_, ?_⟩
  all_goals dsimp only; rw [Tcp.setConn_conns_self]
  · exact stored
  · exact inv.early
  · exact inv.acked

end

theorem receivesAs_of_change {conn : TcpConnection} (claimed : (t.conns i).claimed = true) (change : Change t call i conn)
    (noSegment : ∀ src data dataLen id random, call ≠ .segment src data dataLen id random)
    (other : ∀ connId dataLen, call = .receive connId dataLen → t.getConn connId ≠ some i) : conn.ReceivesAs (t.conns i) := by
  cases change with
  | active chosen free => cases claimed.symm.trans (Tcp.of_freeConn free).2
  | rebound listener entry valid found => exact ⟨rfl, fun _ => ⟨rfl, rfl⟩⟩
  | terminated found => exact ⟨rfl, fun open' => by simp [TcpState.Open] at open'⟩
  | opened unknown opens => exact absurd rfl (noSegment _ _ _ _ _)
  | reset known => exact absurd rfl (noSegment _ _ _ _ _)
  | established takes state syn => exact absurd rfl (noSegment _ _ _ _ _)
  | advanced takes => exact absurd rfl (noSegment _ _ _ _ _)
  | pushed found => exact ⟨rfl, fun _ => ⟨rfl, rfl⟩⟩
  | read found => exact absurd found (other _ _ rfl)

theorem Inv.step {s s' : ReceiveStream} (inv : Inv peer i s) (step : Step peer i s s') : Inv peer i s' := by
  obtain ⟨t, returned, counted, seen⟩ := s
  cases step with
  | sees more most =>
    exact ⟨inv.stored, inv.within, most, inv.ahead.trans (Nat.add_le_add_right more _), inv.early, inv.acked⟩
  | call claimed peers fits ran =>
    rename_i call t' emitted
    -- only a segment counts, and only `tcp_receive` on this connection returns something
    by_cases segment : ∃ src data dataLen id random, call = .segment src data dataLen id random
    · obtain ⟨src, data, dataLen, id, random, rfl⟩ := segment
      have nothing : returns t i (.segment src data dataLen id random) = [] := rfl
      rw [nothing, append_nil]
      exact inv.segment claimed peers fits ran
    have uncounted : counts t i call = 0 := by
      cases call with
      | segment src data dataLen id random => exact absurd ⟨src, data, dataLen, id, random, rfl⟩ segment
      | _ => rfl
    rw [uncounted, Nat.add_zero]
    by_cases own : ∃ connId dataLen, call = .receive connId dataLen ∧ t.getConn connId = some i
    · obtain ⟨connId, dataLen, rfl, found⟩ := own
      cases ran
      rw [returns, if_pos found]
      exact inv.receive dataLen found
    have nothing : returns t i call = [] := by
      cases call with
      | receive connId dataLen => exact if_neg fun found => own ⟨connId, dataLen, rfl, found⟩
      | _ => rfl
    rw [nothing, append_nil]
    obtain ⟨t₁, flush, acts, output⟩ := TcpCall.run_ensures t call _ ran
    refine Inv.output (t := t₁) ?_ output
    refine inv.keep ?_
    rcases acts.conn i with same | change
    · rw [same]
      exact .refl _
    · refine receivesAs_of_change claimed change (fun src data dataLen id random isSegment => ?_) fun connId dataLen isReceive found => ?_
      · exact segment ⟨src, data, dataLen, id, random, isSegment⟩
      · exact own ⟨connId, dataLen, isReceive, found⟩

theorem Inv.created (free : (t.conns i).claimed = false) (ran : call.run t = .ok (t', emitted))
    (claimed : (t'.conns i).claimed = true) (opener : ∀ src data dataLen id random, call = .segment src data dataLen id random →
      htonl (arrival src data dataLen).header.seqNum = peer.irs) : Inv peer i ⟨t', [], 0, 0⟩ := by
  obtain ⟨-, t₁, flush, made, output⟩ := TcpCall.made_of_run free ran claimed
  refine Inv.output (t := t₁) ?_ output
  obtain ⟨none, acked⟩ : (t₁.conns i).recvHead = (t₁.conns i).recvTail ∧
      ((t₁.conns i).state = .synReceived ∨ (t₁.conns i).state = .established → (t₁.conns i).ack = peer.irs + 1) := by
    generalize t₁.conns i = conn at made
    cases made with
    | active port => exact ⟨rfl, fun states => by rcases states with state | state <;> cases state⟩
    | opened syn =>
      refine ⟨rfl, fun _ => ?_⟩
      rw [← opener _ _ _ _ _ rfl]
      rfl
  have empty : (t₁.conns i).unread = [] := by
    rw [← length_eq_zero_iff, length_unread, none, BitVec.sub_self]
    rfl
  refine ⟨?_, Nat.zero_le _, Nat.le_refl 0, Nat.zero_le _, fun _ => rfl, fun states => .inl (acked states)⟩
  rw [empty]
  rfl

end ReceiveStream

/-- In a run on a connection, from the call that makes it, with the segments of another end, what was counted is what was returned and
what is stored, if a payload comes in only in ESTABLISHED and fits. -/
theorem received_bytes_whole (peer : Peer) (i : Nat) (t t' : Tcp) (call : TcpCall)
    (emitted : Emitted) (free : (t.conns i).claimed = false)
    (made : call.run t = .ok (t', emitted)) (claimed : (t'.conns i).claimed = true)
    (opener : ∀ src data dataLen id random, call = .segment src data dataLen id random →
      htonl (arrival src data dataLen).header.seqNum = peer.irs)
    (s : ReceiveStream) (run : ReflTransGen (ReceiveStream.Step peer i) ⟨t', [], 0, 0⟩ s) : s.Whole peer i := by
  have start := ReceiveStream.Inv.created free made claimed opener
  have inv := invariant_of_run (ReceiveStream.Inv peer i) (fun _ _ inv step => inv.step step) run start
  exact ⟨inv.stored, inv.within, fun established => inv.acked (.inr established)⟩

def ReceiveStream.perform (i : Nat) : ReceiveStream → List TcpCall → Outcome ReceiveStream
  | s, [] => pure s
  | s, call :: calls => do
    let (t', _) ← call.run s.tcp
    perform i ⟨t', s.returned ++ returns s.tcp i call, s.counted + counts s.tcp i call, s.seen⟩ calls

/-- The other end sends its first byte with the acknowledgement of the answer to SYN. -/
def dataWithAck : Outcome ReceiveStream := ReceiveStream.perform 0 ⟨listening, [], 0, 0⟩ [synFrom1000 11, ackFrom1000 8 [97]]

/-- The byte is counted and not stored. -/
theorem early_byte_lost : (⟨0, [97]⟩ : Peer).Sends 0 (arrival (ipv4 10 0 2 2) (segmentTo80 1000 1 8 tcpAck [97]) 21) 1 ∧
    ∃ s, dataWithAck = .ok s ∧ s.counted = 1 ∧ s.returned = [] ∧ (s.tcp.conns 0).unread = [] ∧ ¬s.Whole ⟨0, [97]⟩ 0 := by
  have seen : (do
      let s ← dataWithAck
      pure (s.counted, s.returned, (s.tcp.conns 0).unread) : Outcome (Nat × List Byte × List Byte)) = .ok (1, [], []) := by decide +kernel
  obtain ⟨s, ran, same⟩ := Outcome.of_bind seen
  obtain ⟨counted, rest⟩ := Outcome.ok_inj same
  obtain ⟨returned, unread⟩ := Prod.mk.inj rest
  refine ⟨?_, s, ran, counted, returned, unread, fun whole => ?_⟩
  · constructor <;> decide +kernel
  · have stored := whole.stored
    rw [returned, unread, counted] at stored
    cases stored

def ReceiveStream.next (i : Nat) (s : ReceiveStream) (call : TcpCall) : ReceiveStream :=
  ⟨(s.tcp.after call).1, s.returned ++ returns s.tcp i call, s.counted + counts s.tcp i call, s.seen⟩

theorem ReceiveStream.Step.next {peer : Peer} {i : Nat} {s : ReceiveStream} (claimed : (s.tcp.conns i).claimed = true)
    (peers : FromPeer peer i s call) (fits : Fits s.tcp i call)
      (returns : (call.run s.tcp).isOk = true) : Step peer i s (s.next i call) :=
  .call claimed peers fits (Tcp.run_after returns)

/-- The connection when SYN has been answered, when the answer has been acknowledged, and when two bytes have come in. -/
def answeredSyn : ReceiveStream := ⟨(listening.after (synFrom1000 11)).1, [], 0, 0⟩

def nothingStored : ReceiveStream := answeredSyn.next 0 (ackFrom1000 8 [])

def twoStored : ReceiveStream := nothingStored.next 0 (ackFrom1000 8 [97, 98])

/-- Bytes that come in later are returned. -/
theorem later_bytes_returned : ∃ s, ReflTransGen (ReceiveStream.Step ⟨0, [97, 98]⟩ 0) answeredSyn s ∧ s.counted = 2 ∧
    s.returned = [97, 98] ∧ s.Whole ⟨0, [97, 98]⟩ 0 := by
  have made := Tcp.run_after (by decide +kernel : ((synFrom1000 11).run listening).isOk = true)
  have first : ReceiveStream.Step ⟨0, [97, 98]⟩ 0 answeredSyn nothingStored := by
    refine .next (by decide +kernel) (fun _ _ => ⟨1, ?_⟩) (fun _ _ some => ?_) (by decide +kernel)
    · constructor <;> decide +kernel
    · exact absurd (by decide +kernel) some
  have second : ReceiveStream.Step ⟨0, [97, 98]⟩ 0 nothingStored twoStored := by
    refine .next (by decide +kernel) (fun _ _ => ⟨1, ?_⟩) (fun _ _ _ => ?_) (by decide +kernel)
    · constructor <;> decide +kernel
    · decide +kernel
  have third : ReceiveStream.Step ⟨0, [97, 98]⟩ 0 twoStored (twoStored.next 0 (.receive 11 10)) :=
    .next (by decide +kernel) trivial trivial (by decide +kernel)
  have run := ((ReflTransGen.single first).tail second).tail third
  have claimed : ((listening.after (synFrom1000 11)).1.conns 0).claimed = true := by decide +kernel
  refine ⟨_, run, by decide +kernel, by decide +kernel, ?_⟩
  refine received_bytes_whole ⟨0, [97, 98]⟩ 0 listening _ (synFrom1000 11) _ rfl made claimed ?_ _ run
  rintro src data dataLen id random same
  cases same
  decide +kernel

end Xos.Net
