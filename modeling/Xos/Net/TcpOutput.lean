import Xos.Net.Checksum
import Xos.Net.Tcp

/-!
# What sending does to the tables

In the tables, sending changes nothing but the sequence number and the end of the unsent bytes. What a packet carries is
read off its bytes.
-/
namespace Xos.Net

open Outcome Function List Ensures

def segmentSeq (packet : List Byte) : BitVec 32 :=
  packet.getD 24 0 ++ packet.getD 25 0 ++ packet.getD 26 0 ++ packet.getD 27 0

def segmentPayload (packet : List Byte) : List Byte := packet.drop 40

def packetsOf (i : Nat) (emitted : Emitted) : List (List Byte) := (emitted.filter (·.1 = i)).map (·.2.packet)

@[simp] theorem packetsOf_append (i : Nat) (emitted more : Emitted) :
    packetsOf i (emitted ++ more) = packetsOf i emitted ++ packetsOf i more := by
  simp [packetsOf]

theorem part_htonl (x : BitVec 32) : part (htonl x) 0 = part x 3 ∧ part (htonl x) 1 = part x 2 ∧ part (htonl x) 2 = part x 1 ∧
    part (htonl x) 3 = part x 0 := by
  refine ⟨?_, ?_, ?_, ?_⟩
  all_goals
    ext i inside
    rcases i with _ | _ | _ | _ | _ | _ | _ | _ | i
    all_goals first | omega | simp [part, htonl]

theorem append_parts (x : BitVec 32) : part x 3 ++ part x 2 ++ part x 1 ++ part x 0 = x := by
  ext i inside
  simp only [part, BitVec.getElem_append, BitVec.getElem_extractLsb']
  split
  next => simp [BitVec.getLsbD_eq_getElem inside]
  next =>
    split
    next => rw [show 8 * 1 + (i - 8) = i by omega, BitVec.getLsbD_eq_getElem inside]
    next =>
      split
      next => rw [show 8 * 2 + (i - 8 - 8) = i by omega, BitVec.getLsbD_eq_getElem inside]
      next => rw [show 8 * 3 + (i - 8 - 8 - 8) = i by omega, BitVec.getLsbD_eq_getElem inside]

theorem segment_of_packet {ip : Ipv4Header} {header : TcpHeader} {seq : BitVec 32}
    (number : header.seqNum = htonl seq) (payload : List Byte)
    {len : Nat} (whole : 20 ≤ len) : segmentSeq (ip.bytes ++ (header.bytes ++ payload).take len) = seq ∧
      segmentPayload (ip.bytes ++ (header.bytes ++ payload).take len) = payload.take (len - 20) := by
  have cut : (header.bytes ++ payload).take len = header.bytes ++ payload.take (len - 20) := by
    rw [take_append, TcpHeader.length_bytes, take_of_length_le (by rw [TcpHeader.length_bytes]; exact whole)]
  rw [cut]
  constructor
  · -- the number lies at bytes 4 to 7 of the segment, the highest byte first
    obtain ⟨first, second, third, fourth⟩ := part_htonl seq
    have bytes : segmentSeq (ip.bytes ++ (header.bytes ++ payload.take (len - 20))) =
        part header.seqNum 0 ++ part header.seqNum 1 ++ part header.seqNum 2 ++ part header.seqNum 3 := rfl
    rw [bytes, number, first, second, third, fourth, append_parts]
  · rw [segmentPayload, ← List.append_assoc]
    exact drop_left' rfl

def Routed (routes : Nat → Option Route) (dst : Ipv4Addr) : Prop :=
  ∀ nics ipId conns route, findBestRoute ⟨nics, routes, ipId, conns⟩ dst = .ok route → route.nicId ≠ 0

theorem routed_iff {net : Stack} {dst : Ipv4Addr} {route : Route} (found : findBestRoute net dst = .ok route) :
    Routed net.routes dst ↔ route.nicId ≠ 0 := by
  constructor
  · intro routed
    exact routed net.nics net.ipId net.conns route found
  · intro known nics ipId conns other chosen
    have same : findBestRoute ⟨nics, net.routes, ipId, conns⟩ dst = findBestRoute net dst := rfl
    rw [same, found] at chosen
    cases chosen
    exact known

theorem ipSend_isSome {net net' : Stack} {dst : Ipv4Addr} {protocol : Byte} {payload : List Byte}
    {len : BitVec 16} {sent : Option Sent}
    (ret : ipSend net dst protocol payload len ⟨0, 0⟩ = .ok (net', sent)) : sent.isSome ↔ Routed net.routes dst := by
  rw [ipSend] at ret
  obtain ⟨⟨index, route⟩, chosen, sent⟩ := of_bind ret
  obtain ⟨best, found, pair⟩ := of_bind chosen
  cases pair
  rw [routed_iff found]
  dsimp only at sent
  split at sent
  next none =>
    cases sent
    simp [none]
  next known =>
    obtain ⟨nic, checksum, -, -, sent⟩ := of_bind₂ sent
    split at sent
    next => cases sent
    next =>
      split at sent
      next => cases sent
      next =>
        cases sent
        simp [known]

theorem sendSegment_emits (net : Stack) (conn : TcpActiveSocket) {header : TcpHeader}
    {seq : BitVec 32} (number : header.seqNum = htonl seq)
    (payload : List Byte) (len : BitVec 16) : (sendSegment net conn header payload len).Ensures fun res =>
      (∃ ipId, res.1 = { net with ipId := ipId }) ∧
        (∀ sent, res.2 = some sent → 20 ≤ len.toNat →
          segmentSeq sent.packet = seq ∧ segmentPayload sent.packet = payload.take (len.toNat - 20)) ∧
        (res.2.isSome ↔ Routed net.routes conn.remoteIp) := by
  apply Ensures.read
  intro checksum _
  rintro ⟨net', emission⟩ ret
  obtain ⟨kept, emits⟩ := ipSend_ensures _ _ _ _ _ _ ret
  refine ⟨kept, fun sent some whole => ?_, ipSend_isSome ret⟩
  obtain ⟨ip, -, -, -, bytes⟩ := emits sent some
  rw [bytes]
  have numbered : { header with checksum := checksum }.seqNum = htonl seq := number
  exact segment_of_packet numbered payload whole

namespace TcpActiveSocket

/-- SYN and FIN take a sequence number. -/
def counted (conn : TcpActiveSocket) (flags : Byte) : TcpActiveSocket :=
  if flags &&& (tcpSyn ||| tcpFin) ≠ 0 then { conn with seq := conn.seq + 1 } else conn

def Due (conn : TcpActiveSocket) : Prop := conn.state = .established ∧ conn.payloadLen ≠ 0

instance (conn : TcpActiveSocket) : Decidable conn.Due := inferInstanceAs (Decidable (_ ∧ _))

/-- A connection after `tcp_send_buffered_data`. -/
def flushed (conn : TcpActiveSocket) : TcpActiveSocket :=
  if conn.Due then { conn with sendTail := conn.sendHead, seq := conn.seq + BitVec.ofNat 32 conn.payloadLen } else conn

theorem sendTail_add_payloadLen (conn : TcpActiveSocket) : conn.sendTail + BitVec.ofNat 32 conn.payloadLen = conn.sendHead := by
  rw [payloadLen, BitVec.ofNat_toNat, BitVec.setWidth_eq, BitVec.add_comm, BitVec.sub_add_cancel]

end TcpActiveSocket

namespace TcpConnection

def counted (conn : TcpConnection) (flags : Byte) : TcpConnection :=
  { conn with toTcpActiveSocket := conn.toTcpActiveSocket.counted flags }

def flushed (conn : TcpConnection) : TcpConnection := { conn with toTcpActiveSocket := conn.toTcpActiveSocket.flushed }

end TcpConnection

namespace Tcp

def withIpId (t : Tcp) (ipId : BitVec 16) : Tcp := { t with ipId := ipId }

/-- The tables after `tcp_send_buffered_data`. -/
def flush (t : Tcp) : Tcp := { t with conns := fun j => if j < tcpMaxConnections then (t.conns j).flushed else t.conns j }

theorem withStack_setConn (t : Tcp) (i : Nat) (conn : TcpActiveSocket) (ipId : BitVec 16) :
    t.withStack { t.stack.setConn i conn with ipId := ipId } =
      (t.setConn i { t.conns i with toTcpActiveSocket := conn }).withIpId ipId := by
  simp only [withStack, setConn, withIpId, Stack.setConn_conns, Tcp.mk.injEq, true_and]
  refine ⟨?_, trivial⟩
  funext j
  by_cases here : j = i
  · subst here
    rw [update_self, update_self]
  · rw [update_of_ne here, update_of_ne here]
    rfl

theorem sendHeader_ensures (t : Tcp) (i : Nat) (flags : Byte) :
    (t.sendHeader i flags).Ensures fun res => (∃ ipId, res.1 = (t.setConn i ((t.conns i).counted flags)).withIpId ipId) ∧
      ∀ j, ∀ packet ∈ packetsOf j res.2, segmentPayload packet = [] := by
  rw [sendHeader]
  have number : (createHeader (t.stack.conns i) flags).seqNum = htonl (t.stack.conns i).seq := rfl
  refine .bind (sendSegment_emits (t.stack.setConn i ((t.stack.conns i).counted flags)) _ number [] 20) ?_
  rintro ⟨net, sent⟩ ⟨⟨ipId, rfl⟩, emits, -⟩
  apply Ensures.pure
  refine ⟨⟨ipId, withStack_setConn ..⟩, fun j packet inside => ?_⟩
  cases sent with
  | none => cases inside
  | some sent =>
    obtain ⟨⟨k, other⟩, listed, rfl⟩ := mem_map.mp inside
    obtain ⟨rfl, rfl⟩ : k = i ∧ other = sent := by
      have single := (mem_filter.mp listed).1
      simpa using single
    exact (emits other rfl (by decide)).2

def Carries (routes : Nat → Option Route) (conn : TcpActiveSocket) (packets : List (List Byte)) : Prop :=
  (¬conn.Due ∨ ¬Routed routes conn.remoteIp → packets = []) ∧ (conn.Due → conn.payloadLen + 20 < 2 ^ 16 → Routed routes conn.remoteIp →
    ∃ packet, packets = [packet] ∧ segmentSeq packet = conn.seq ∧ segmentPayload packet = conn.payload)

/-- The loop of `tcp_send_buffered_data` after `n` connections. -/
structure Flushing (net : Stack) (n : Nat) (state : Stack × Emitted) : Prop where
  tables : ∃ ipId, state.1 = { net with ipId := ipId, conns := fun j => if j < n then (net.conns j).flushed else net.conns j }
  behind : ∀ j < n, Carries net.routes (net.conns j) (packetsOf j state.2)
  ahead : ∀ j, n ≤ j → packetsOf j state.2 = []

section Flushing

variable {net : Stack} {n : Nat} {state : Stack × Emitted}

section

variable (flushing : Flushing net n state)
include flushing

theorem Flushing.here : state.1.conns n = net.conns n := by
  obtain ⟨ipId, tables⟩ := flushing.tables
  rw [tables]
  exact if_neg (Nat.lt_irrefl n)

theorem Flushing.update : update state.1.conns n (net.conns n).flushed =
    fun j => if j < n + 1 then (net.conns j).flushed else net.conns j := by
  obtain ⟨ipId, tables⟩ := flushing.tables
  funext j
  by_cases last : j = n
  · subst last
    rw [update_self, if_pos (Nat.lt_succ_self j)]
  · rw [update_of_ne last, tables]
    exact if_congr (by omega) rfl rfl

theorem Flushing.idle (idle : ¬(net.conns n).Due) : Flushing net (n + 1) state := by
  obtain ⟨ipId, tables⟩ := flushing.tables
  refine ⟨⟨ipId, ?_⟩, fun j before => ?_, fun j after => flushing.ahead j (by omega)⟩
  · have same := flushing.update
    rw [TcpActiveSocket.flushed, if_neg idle, ← flushing.here, update_eq_self] at same
    rw [tables] at same ⊢
    rw [← same]
  · rcases Nat.lt_succ_iff_lt_or_eq.mp before with earlier | rfl
    · exact flushing.behind j earlier
    · rw [flushing.ahead j (Nat.le_refl j)]
      exact ⟨fun _ => rfl, fun due => absurd due idle⟩

theorem Flushing.sent (ipId : BitVec 16) (sent : Option Sent)
    (carries : Carries net.routes (net.conns n) (packetsOf n (sent.toList.map fun sent => (n, sent)))) :
    Flushing net (n + 1) ({ state.1 with ipId := ipId, conns := Function.update state.1.conns n (net.conns n).flushed },
      state.2 ++ sent.toList.map fun sent => (n, sent)) := by
  have others {j : Nat} (other : j ≠ n) : packetsOf j (sent.toList.map fun sent => (n, sent)) = [] := by
    cases sent <;> simp [packetsOf, Ne.symm other]
  refine ⟨⟨ipId, ?_⟩, fun j before => ?_, fun j after => ?_⟩
  · obtain ⟨ipId', tables⟩ := flushing.tables
    dsimp only
    rw [flushing.update, tables]
  · rcases Nat.lt_succ_iff_lt_or_eq.mp before with earlier | rfl
    · rw [packetsOf_append, others (Nat.ne_of_lt earlier), append_nil]
      exact flushing.behind j earlier
    · rw [packetsOf_append, flushing.ahead j (Nat.le_refl j), nil_append]
      exact carries
  · rw [packetsOf_append, others (Nat.ne_of_gt after), flushing.ahead j (by omega)]
    rfl

end

end Flushing

theorem Flushing.sendBuffered {net : Stack} {n : Nat} {state : Stack × Emitted} (flushing : Flushing net n state) :
    (sendBuffered n state).Ensures (Flushing net (n + 1)) := by
  rw [Net.sendBuffered, flushing.here]
  refine .ite (fun idle => ?_) fun busy => ?_
  · refine .pure (flushing.idle ?_)
    rintro ⟨established, some⟩
    exact idle.elim (fun other => other established) some
  have due : (net.conns n).Due := by
    rw [not_or, not_not] at busy
    exact busy
  refine .ite (fun _ => .stop _) fun short => ?_
  have number : (createHeader (net.conns n) tcpAck).seqNum = htonl (net.conns n).seq := rfl
  refine .bind (sendSegment_emits _ _ number (net.conns n).payload _) ?_
  rintro ⟨net', sent⟩ ⟨⟨ipId, rfl⟩, emits, handed⟩
  have handed : sent.isSome ↔ Routed net.routes (net.conns n).remoteIp := by
    obtain ⟨_, tables⟩ := flushing.tables
    have same : state.1.routes = net.routes := by rw [tables]
    rw [← same]
    exact handed
  apply Ensures.pure
  -- what has been set in two steps is the connection without what it had to send
  have now : { net.conns n with sendTail := (net.conns n).sendHead, seq := (net.conns n).seq + BitVec.ofNat 32 (net.conns n).payloadLen } =
      (net.conns n).flushed := (if_pos due).symm
  simp only [Stack.setConn, update_idem, TcpActiveSocket.sendTail_add_payloadLen, now]
  refine flushing.sent ipId sent ⟨fun none => ?_, fun _ fits routed => ?_⟩
  · have nothing := none.resolve_left (not_not.mpr due)
    rw [← handed, Option.not_isSome_iff_eq_none] at nothing
    rw [nothing]
    rfl
  · obtain ⟨sent, rfl⟩ := Option.isSome_iff_exists.mp (handed.mpr routed)
    have length : (BitVec.ofNat 16 ((net.conns n).payloadLen + 20)).toNat = (net.conns n).payloadLen + 20 := by
      rw [BitVec.toNat_ofNat, Nat.mod_eq_of_lt fits]
    obtain ⟨seq, payload⟩ := emits sent rfl (by rw [length]; omega)
    refine ⟨sent.packet, by simp [packetsOf], seq, ?_⟩
    rw [payload, length, Nat.add_sub_cancel]
    exact List.take_of_length_le (by simp [TcpActiveSocket.payload])

theorem sendBufferedData_ensures (t : Tcp) : t.sendBufferedData.Ensures fun res => (∃ ipId, res.1 = t.flush.withIpId ipId) ∧
      (∀ j < tcpMaxConnections, Carries t.routes (t.conns j).toTcpActiveSocket (packetsOf j res.2)) ∧
      ∀ j, tcpMaxConnections ≤ j → packetsOf j res.2 = [] := by
  have start : Flushing t.stack 0 (t.stack, []) :=
    ⟨⟨t.ipId, rfl⟩, fun j before => absurd before (Nat.not_lt_zero j), fun _ _ => rfl⟩
  refine .bind (forRange_upto (Flushing t.stack) (Nat.zero_add _) start fun _ _ => Flushing.sendBuffered) ?_
  rintro ⟨net, emitted⟩ ⟨⟨ipId, rfl⟩, behind, ahead⟩
  refine .pure ⟨⟨ipId, ?_⟩, behind, ahead⟩
  simp only [withStack, flush, withIpId, Tcp.mk.injEq, true_and, and_true]
  funext j
  split
  next => rfl
  next => rfl

end Tcp

end Xos.Net
