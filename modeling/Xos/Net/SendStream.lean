import Xos.Net.Identity
import Xos.Net.TcpBuffers

/-!
# The bytes that a connection sends

The bytes between tail and head are those that were passed and not yet sent, as long as what is passed fits and only
bytes that were sent are acknowledged.
-/
namespace Xos.Net

open Lib Relation List

def carriedBy (packets : List (List Byte)) : List Byte := packets.flatMap segmentPayload

/-- A segment with data begins with the byte behind those of the segments before it. It has the number of that
byte, and carries what was passed from there on. -/
def Carried (initialSeq : BitVec 32) (passed : List Byte) (packets : List (List Byte)) : Prop :=
  ∀ before packet after, packets = before ++ packet :: after → segmentPayload packet ≠ [] →
    segmentSeq packet = initialSeq + 1 + BitVec.ofNat 32 (carriedBy before).length ∧
      segmentPayload packet <+: passed.drop (carriedBy before).length

section Carried

variable {initialSeq : BitVec 32} {passed : List Byte} {packets heads : List (List Byte)} {packet : List Byte}

section

variable (carried : Carried initialSeq passed packets)
include carried

theorem Carried.snoc (last : segmentPayload packet ≠ [] → segmentSeq packet = initialSeq + 1 + BitVec.ofNat 32 (carriedBy packets).length ∧
      segmentPayload packet <+: passed.drop (carriedBy packets).length) : Carried initialSeq passed (packets ++ [packet]) := by
  intro before other after split data
  -- the segment is the last one, or one of those before
  rcases eq_nil_or_concat after with rfl | ⟨after, end', rfl⟩
  · obtain ⟨rfl, same⟩ := append_inj' split rfl
    obtain rfl := List.cons.inj same |>.1
    exact last data
  · rw [concat_eq_append, ← cons_append, ← append_assoc] at split
    exact carried before other after (append_inj' split rfl).1 data

theorem Carried.append_heads (empty : ∀ packet ∈ heads, segmentPayload packet = []) :
    Carried initialSeq passed (packets ++ heads) := by
  induction heads generalizing packets with
  | nil => rwa [append_nil]
  | cons head heads ih =>
    have first := carried.snoc fun data => absurd (empty head mem_cons_self) data
    have rest := ih first fun packet inside => empty packet (mem_cons_of_mem head inside)
    rwa [append_assoc] at rest

theorem Carried.append_passed (bytes : List Byte) : Carried initialSeq (passed ++ bytes) packets := by
  intro before packet after split data
  obtain ⟨number, within⟩ := carried before packet after split data
  refine ⟨number, ?_⟩
  rw [drop_append]
  exact within.trans (prefix_append ..)

end

end Carried

/-- The tables, what was passed to `tcp_send` on a connection, and the packets of the connection. -/
structure SendStream where
  tcp : Tcp
  passed : List Byte
  packets : List (List Byte)

namespace SendStream

/-- What a call passes to `tcp_send` on the connection. -/
def passes (t : Tcp) (i : Nat) : TcpCall → List Byte
  | .send connId data dataLen => if t.getConn connId = some i then bytesFrom data 0 dataLen.toNat else []
  | _ => []

/-- What is passed to `tcp_send` fits into the buffer, and a segment that is taken acknowledges no more than was sent. -/
def Allows (t : Tcp) (i : Nat) : TcpCall → Prop
  | .send connId _ dataLen => t.getConn connId = some i → (t.conns i).payloadLen + dataLen.toNat ≤ sendBufSize
  | .segment src data dataLen _ _ => 20 ≤ dataLen.toNat → t.Takes (arrival src data dataLen) i →
    htonl (arrival src data dataLen).header.ackNum - (t.conns i).initialSeq - 1 ≤ (t.conns i).sendTail
  | _ => True

inductive Step (i : Nat) (s : SendStream) : SendStream → Prop where
  | call {call : TcpCall} {t' : Tcp} {emitted : Emitted} (claimed : (s.tcp.conns i).claimed = true) (allows : Allows s.tcp i call)
    (returned : call.run s.tcp = .ok (t', emitted)) : Step i s ⟨t', s.passed ++ passes s.tcp i call, s.packets ++ packetsOf i emitted⟩

structure InStep (i : Nat) (s : SendStream) : Prop where
  carried : Carried (s.tcp.conns i).initialSeq s.passed s.packets
  bounded : (s.tcp.conns i).payloadLen ≤ sendBufSize

end SendStream

/-- A connection has the same to send as another, and still has its number if it is open. -/
structure TcpConnection.SendsAs (conn' conn : TcpConnection) : Prop where
  buffer : conn'.sendBuf = conn.sendBuf
  head : conn'.sendHead = conn.sendHead
  tail : conn'.sendTail = conn.sendTail
  first : conn'.initialSeq = conn.initialSeq
  remote : conn'.remoteIp = conn.remoteIp
  number : conn'.state.Open → conn.state.Open ∧ conn'.seq = conn.seq

section SendsAs

variable {conn conn' conn'' : TcpConnection}

theorem TcpConnection.SendsAs.trans (second : conn''.SendsAs conn') (first : conn'.SendsAs conn) : conn''.SendsAs conn where
  buffer := second.buffer.trans first.buffer
  head := second.head.trans first.head
  tail := second.tail.trans first.tail
  first := second.first.trans first.first
  remote := second.remote.trans first.remote
  number open' := by
    obtain ⟨between, seq⟩ := second.number open'
    obtain ⟨before, seq'⟩ := first.number between
    exact ⟨before, seq.trans seq'⟩

theorem TcpConnection.acknowledge_sendsAs {a : Arrival} (acked : htonl a.header.ackNum - conn.initialSeq - 1 ≤ conn.sendTail) :
    (conn.acknowledge a.header a.payloadLen).SendsAs conn :=
  ⟨rfl, rfl, if_neg (BitVec.not_lt.mpr acked), rfl, rfl, fun open' => ⟨open', rfl⟩⟩

theorem TcpConnection.close_sendsAs (conn : TcpConnection) : conn.close.SendsAs conn :=
  ⟨rfl, rfl, rfl, rfl, rfl, fun open' => absurd open' conn.close_not_open⟩

theorem TcpConnection.advance_sendsAs (conn : TcpConnection) (flags : Byte) (payload : List Byte) :
    (conn.advance flags payload).SendsAs conn := by
  rcases conn.advance_cases flags payload with ⟨state, seq, same, moved⟩ | ⟨-, -, same⟩
  · have number (open' : state.Open) : conn.state.Open ∧ seq = conn.seq := by
      rcases moved with ⟨unmoved, number⟩ | ⟨ending, -⟩
      · rw [unmoved] at open'
        exact ⟨open', number⟩
      · exact absurd open' ending.not_open
    rw [same]
    split
    next => exact ⟨rfl, rfl, rfl, rfl, rfl, number⟩
    next => exact ⟨rfl, rfl, rfl, rfl, rfl, number⟩
  · rw [same]
    exact conn.close_sendsAs

end SendsAs

variable {call : TcpCall}

namespace SendStream

structure Inv (i : Nat) (s : SendStream) (sent : Nat) : Prop where
  inside : i < tcpMaxConnections
  bounded : (s.tcp.conns i).payloadLen ≤ sendBufSize
  unsent : (s.tcp.conns i).payload = s.passed.drop sent
  within : sent ≤ s.passed.length
  number : (s.tcp.conns i).state.Open → (s.tcp.conns i).seq = (s.tcp.conns i).initialSeq + 1 + BitVec.ofNat 32 sent
  carried : Carried (s.tcp.conns i).initialSeq s.passed s.packets
  counted : Routed s.tcp.routes (s.tcp.conns i).remoteIp → (carriedBy s.packets).length = sent

variable {t t' : Tcp} {i sent : Nat} {passed : List Byte} {packets : List (List Byte)}

theorem Inv.keep (inv : Inv i ⟨t, passed, packets⟩ sent) (routes : t'.routes = t.routes) (same : (t'.conns i).SendsAs (t.conns i)) :
    Inv i ⟨t', passed, packets⟩ sent := by
  have size : (t'.conns i).payloadLen = (t.conns i).payloadLen := by
    rw [TcpActiveSocket.payloadLen, TcpActiveSocket.payloadLen, same.head, same.tail]
  have bytes : (t'.conns i).payload = (t.conns i).payload := by
    rw [TcpActiveSocket.payload, TcpActiveSocket.payload, size, same.tail, same.buffer]
  refine ⟨inv.inside, size.trans_le inv.bounded, bytes.trans inv.unsent, inv.within, fun open' => ?_, ?_, ?_⟩
  · obtain ⟨before, seq⟩ := same.number open'
    dsimp only
    rw [seq, same.first]
    exact inv.number before
  · dsimp only
    rw [same.first]
    exact inv.carried
  · rw [routes, same.remote]
    exact inv.counted

theorem Inv.push (inv : Inv i ⟨t, passed, packets⟩ sent) {data : Nat → Byte} {dataLen : BitVec 16}
    (room : (t.conns i).payloadLen + dataLen.toNat ≤ sendBufSize) :
    Inv i ⟨t.setConn i ((t.conns i).push data dataLen), passed ++ bytesFrom data 0 dataLen.toNat, packets⟩ sent := by
  obtain ⟨size, bytes⟩ := TcpConnection.payload_push data room
  constructor
  case inside => exact inv.inside
  all_goals simp only [Tcp.setConn_conns_self]
  case bounded => exact size.trans_le room
  case unsent =>
    have unsent : (t.conns i).payload = passed.drop sent := inv.unsent
    rw [bytes, unsent, drop_append_of_le_length inv.within]
  case within =>
    rw [length_append]
    exact inv.within.trans (Nat.le_add_right ..)
  case number => exact inv.number
  case carried => exact inv.carried.append_passed _
  case counted => exact inv.counted

/-- A call that passes nothing leaves what there is to send. -/
theorem sendsAs_of_change {conn : TcpConnection} (claimed : (t.conns i).claimed = true) (allows : Allows t i call)
    (long : ∀ src data dataLen id random, call = .segment src data dataLen id random → 20 ≤ dataLen.toNat)
    (change : Change t call i conn) (other : ∀ connId data dataLen, call = .send connId data dataLen → t.getConn connId ≠ some i) :
    conn.SendsAs (t.conns i) := by
  have unclaimed (free : t.freeConn = some i) : False := by
    cases claimed.symm.trans (Tcp.of_freeConn free).2
  cases change with
  | active chosen free => exact (unclaimed free).elim
  | opened unknown opens => exact (unclaimed opens.free).elim
  | rebound listener entry valid found => exact ⟨rfl, rfl, rfl, rfl, rfl, fun open' => ⟨open', rfl⟩⟩
  | terminated found => exact ⟨rfl, rfl, rfl, rfl, rfl, fun open' => by simp [TcpState.Open] at open'⟩
  | reset known => exact TcpConnection.close_sendsAs _
  | established takes state syn =>
    have kept := TcpConnection.acknowledge_sendsAs (allows (long _ _ _ _ _ rfl) takes)
    exact ⟨kept.buffer, kept.head, kept.tail, kept.first, kept.remote, fun _ => ⟨state.imp_right .inl, rfl⟩⟩
  | advanced takes =>
    have kept := TcpConnection.acknowledge_sendsAs (allows (long _ _ _ _ _ rfl) takes)
    exact (TcpConnection.advance_sendsAs ..).trans kept
  | pushed found => exact absurd found (other _ _ _ rfl)
  | read found => exact ⟨rfl, rfl, rfl, rfl, rfl, fun open' => ⟨open', rfl⟩⟩

section

variable (inv : Inv i ⟨t, passed, packets⟩ sent)
include inv

theorem Inv.heads {heads : List (List Byte)} (empty : ∀ packet ∈ heads, segmentPayload packet = []) :
    Inv i ⟨t, passed, packets ++ heads⟩ sent := by
  refine ⟨inv.inside, inv.bounded, inv.unsent, inv.within, inv.number, inv.carried.append_heads empty, fun routed => ?_⟩
  rw [carriedBy, flatMap_append, flatMap_eq_nil_iff.mpr empty, append_nil]
  exact inv.counted routed

theorem Inv.flushed {data : List (List Byte)} (due : (t.conns i).Due)
    (routes : t'.routes = t.routes) (now : t'.conns i = { t.conns i with
      sendTail := (t.conns i).sendHead, seq := (t.conns i).seq + BitVec.ofNat 32 (t.conns i).payloadLen })
    (carries : Tcp.Carries t.routes (t.conns i).toTcpActiveSocket data) : Inv i ⟨t', passed, packets ++ data⟩ passed.length := by
  have within : sent ≤ passed.length := inv.within
  have bounded : (t.conns i).payloadLen ≤ 4096 := inv.bounded
  have unsent : (t.conns i).payload = passed.drop sent := inv.unsent
  have number : (t.conns i).seq = (t.conns i).initialSeq + 1 + BitVec.ofNat 32 sent := inv.number (.inr (.inr due.1))
  have size : (t.conns i).payloadLen = passed.length - sent := by
    rw [← TcpActiveSocket.length_payload, unsent, length_drop]
  have rest : (t'.conns i).payloadLen = 0 := by
    rw [now, TcpActiveSocket.payloadLen, BitVec.sub_self]
    rfl
  -- the packet, where there is a way
  have packet (routed : Routed t.routes (t.conns i).remoteIp) : (carriedBy packets).length = sent ∧ ∃ packet, data = [packet] ∧
      segmentSeq packet = (t.conns i).seq ∧ segmentPayload packet = (t.conns i).payload :=
    ⟨inv.counted routed, carries.2 due (by omega) routed⟩
  refine ⟨inv.inside, rest.trans_le (Nat.zero_le _), ?_, Nat.le_refl _, fun _ => ?_, ?_, fun routed => ?_⟩
  · rw [drop_length]
    exact eq_nil_of_length_eq_zero (by rw [TcpActiveSocket.length_payload]; exact rest)
  · dsimp only
    rw [now]
    dsimp only
    rw [number, size, BitVec.add_assoc, ← BitVec.ofNat_add, Nat.add_sub_cancel' within]
  · rw [now]
    -- without a way the bytes are gone, and no segment follows either
    by_cases routed : Routed t.routes (t.conns i).remoteIp
    · obtain ⟨counted, packet, rfl, seq, payload⟩ := packet routed
      refine inv.carried.snoc fun _ => ?_
      rw [counted, seq, number, payload, unsent]
      exact ⟨rfl, prefix_refl _⟩
    · rw [carries.1 (.inr routed), append_nil]
      exact inv.carried
  · rw [routes, now] at routed
    obtain ⟨counted, packet, rfl, -, payload⟩ := packet routed
    rw [carriedBy, flatMap_append, length_append, flatMap_singleton, payload, TcpActiveSocket.length_payload, size, ← carriedBy,
      counted, Nat.add_sub_cancel' within]

theorem Inv.output {flush : Bool} {emitted : Emitted} (output : t.Output flush t' emitted) :
    ∃ sent', Inv i ⟨t', passed, packets ++ packetsOf i emitted⟩ sent' := by
  obtain ⟨heads, data, all, empty, none, carries⟩ := output.packets i
  obtain ⟨ipId, tables⟩ := output.tables
  rw [all, ← append_assoc]
  have inv := inv.heads empty
  -- where nothing is due, there are only segments without a payload
  have idle (routes : t'.routes = t.routes) (same : t'.conns i = t.conns i) (nothing : data = []) :
      ∃ sent', Inv i ⟨t', passed, packets ++ heads ++ data⟩ sent' := by
    rw [nothing, append_nil]
    exact ⟨sent, inv.keep routes (same ▸ ⟨rfl, rfl, rfl, rfl, rfl, fun open' => ⟨open', rfl⟩⟩)⟩
  cases flush with
  | false => exact idle (by rw [tables]; rfl) (by rw [tables]; rfl) (none rfl)
  | true =>
    have routes : t'.routes = t.routes := by rw [tables]; rfl
    have flushed : t'.conns i = (t.conns i).flushed := by
      rw [tables]
      exact if_pos inv.inside
    have carries := carries rfl inv.inside
    rw [TcpConnection.flushed, TcpActiveSocket.flushed] at flushed
    by_cases due : (t.conns i).Due
    · rw [if_pos due] at flushed
      exact ⟨_, inv.flushed due routes flushed carries⟩
    · rw [if_neg due] at flushed
      exact idle routes flushed (carries.1 (.inl due))

end

theorem Inv.step {s s' : SendStream} (inv : Inv i s sent) (step : Step i s s') : ∃ sent', Inv i s' sent' := by
  obtain ⟨t, passed, packets⟩ := s
  cases step with
  | call claimed allows ret =>
    rename_i call t' emitted
    -- `tcp_send` on this connection adds to what was passed; any other call leaves what there is to send
    by_cases own : ∃ connId data dataLen, call = .send connId data dataLen ∧ t.getConn connId = some i
    · obtain ⟨connId, data, dataLen, rfl, found⟩ := own
      obtain ⟨flush, output⟩ := TcpCall.send_ensures t data dataLen found _ ret
      simp only [passes, if_pos found]
      exact (inv.push (allows found)).output output
    have nothing : passes t i call = [] := by
      cases call with
      | send connId data dataLen => exact if_neg fun found => own ⟨connId, data, dataLen, rfl, found⟩
      | _ => rfl
    rw [nothing, append_nil]
    by_cases short : ∃ src data dataLen id random, call = .segment src data dataLen id random ∧ dataLen.toNat < 20
    · obtain ⟨src, data, dataLen, id, random, rfl, short⟩ := short
      rw [TcpCall.run, tcpOnData_short t src data id random short] at ret
      cases ret
      exact inv.output (.quiet t)
    obtain ⟨t₁, flush, acts, output⟩ := TcpCall.run_ensures t call _ ret
    have same : (t₁.conns i).SendsAs (t.conns i) := by
      have refl : (t.conns i).SendsAs (t.conns i) := ⟨rfl, rfl, rfl, rfl, rfl, fun open' => ⟨open', rfl⟩⟩
      rcases acts.conn i with same | change
      · rw [same]
        exact refl
      · refine sendsAs_of_change claimed allows (fun src data dataLen id random isSegment => ?_) change fun connId data dataLen isSend found => ?_
        · by_contra less
          exact short ⟨src, data, dataLen, id, random, isSegment, Nat.not_le.mp less⟩
        · exact own ⟨connId, data, dataLen, isSend, found⟩
    exact (inv.keep acts.routes same).output output

theorem Inv.created {emitted : Emitted} (free : (t.conns i).claimed = false) (ret : call.run t = .ok (t', emitted))
    (claimed : (t'.conns i).claimed = true) : ∃ sent', Inv i ⟨t', [], packetsOf i emitted⟩ sent' := by
  obtain ⟨inside, t₁, flush, made, output⟩ := TcpCall.made_of_run free ret claimed
  obtain ⟨none, seq⟩ : (t₁.conns i).sendTail = (t₁.conns i).sendHead ∧ (t₁.conns i).seq = (t₁.conns i).initialSeq + 1 := by
    generalize t₁.conns i = conn at made
    cases made <;> exact ⟨rfl, rfl⟩
  have size : (t₁.conns i).payloadLen = 0 := by
    rw [TcpActiveSocket.payloadLen, none, BitVec.sub_self]
    rfl
  have start : Inv i ⟨t₁, [], []⟩ 0 := by
    refine ⟨inside, size.trans_le (Nat.zero_le _), ?_, Nat.le_refl 0, fun _ => ?_, fun before packet after split => ?_, fun _ => rfl⟩
    · exact eq_nil_of_length_eq_zero (by rw [TcpActiveSocket.length_payload]; exact size)
    · exact seq.trans (BitVec.add_zero _).symm
    · simp at split
  exact start.output output

end SendStream

/-- In a run on a connection, from the call that makes it, the segments carry the bytes that were passed, at their numbers, and
the buffer is not overrun, if what is passed fits and acknowledgements are for what was sent. -/
theorem sent_bytes_in_step (i : Nat) (t t' : Tcp) (call : TcpCall) (emitted : Emitted) (free : (t.conns i).claimed = false)
    (made : call.run t = .ok (t', emitted)) (claimed : (t'.conns i).claimed = true) (s : SendStream)
    (run : ReflTransGen (SendStream.Step i) ⟨t', [], packetsOf i emitted⟩ s) : s.InStep i := by
  have start := SendStream.Inv.created free made claimed
  obtain ⟨sent, inv⟩ := invariant_of_run (fun s => ∃ sent, SendStream.Inv i s sent)
    (fun _ _ inv step => inv.elim fun _ inv => inv.step step) run start
  exact ⟨inv.carried, inv.bounded⟩

def routedListening : Tcp :=
  { listening with
    nics := fun _ => ⟨1, ipv4 10 0 2 15, some .e1000⟩
    routes := fun r => if r = 0 then some ⟨ipv4 10 0 2 0, ipv4 255 255 255 0, 0, 1, 0⟩ else none }

def sendTwo : TcpCall := .send 11 (fun k => BitVec.ofNat 8 (97 + k)) 2

def SendStream.perform (i : Nat) : SendStream → List TcpCall → Outcome SendStream
  | s, [] => pure s
  | s, call :: calls => do
    let (t', emitted) ← call.run s.tcp
    perform i ⟨t', s.passed ++ passes s.tcp i call, s.packets ++ packetsOf i emitted⟩ calls

/-- Two bytes are passed while the answer to SYN is on its way, and the other end acknowledges one of them. -/
def acknowledgedEarly : Outcome SendStream :=
  SendStream.perform 0 ⟨routedListening, [], []⟩ [synFrom1000 11, sendTwo, ackFrom1000 9 []]

/-- The number of the first byte is sent with the second one; the first is never sent. -/
theorem first_byte_skipped : ∃ s, acknowledgedEarly = .ok s ∧ s.passed = [97, 98] ∧
    s.packets.map (fun packet => (segmentSeq packet, segmentPayload packet)) = [(7, []), (8, [98])] ∧ ¬s.InStep 0 := by
  have seen : (do
      let s ← acknowledgedEarly
      pure (s.passed, s.packets.map fun packet => (segmentSeq packet, segmentPayload packet)) :
        Outcome (List Byte × List (BitVec 32 × List Byte))) =
      .ok ([97, 98], [(7, []), (8, [98])]) := by decide +kernel
  obtain ⟨s, ran, same⟩ := Outcome.of_bind seen
  obtain ⟨passed, segments⟩ := Outcome.ok_inj same
  refine ⟨s, ran, passed, segments, fun inStep => ?_⟩
  obtain ⟨answer, rest, packets, first, remaining⟩ := map_eq_cons_iff.mp segments
  obtain ⟨data, last, rfl, second, -⟩ := map_eq_cons_iff.mp remaining
  obtain ⟨-, empty⟩ := Prod.mk.inj first
  obtain ⟨-, payload⟩ := Prod.mk.inj second
  obtain ⟨-, within⟩ := inStep.carried [answer] data last packets (by rw [payload]; decide)
  simp [carriedBy, empty, payload, passed] at within

def SendStream.next (i : Nat) (s : SendStream) (call : TcpCall) : SendStream :=
  ⟨(s.tcp.after call).1, s.passed ++ passes s.tcp i call, s.packets ++ packetsOf i (s.tcp.after call).2⟩

theorem SendStream.Step.next {i : Nat} {s : SendStream} (claimed : (s.tcp.conns i).claimed = true) (allows : Allows s.tcp i call)
    (returns : (call.run s.tcp).isOk = true) : Step i s (s.next i call) :=
  .call claimed allows (Tcp.run_after returns)

def synAnswered : SendStream :=
  ⟨(routedListening.after (synFrom1000 11)).1, [], packetsOf 0 (routedListening.after (synFrom1000 11)).2⟩

def twoPassed : SendStream := synAnswered.next 0 sendTwo

/-- When the other end acknowledges what was sent, both bytes are sent. -/
theorem both_bytes_sent : ∃ s, ReflTransGen (SendStream.Step 0) synAnswered s ∧ s.passed = [97, 98] ∧
    s.packets.map (fun packet => (segmentSeq packet, segmentPayload packet)) = [(7, []), (8, [97, 98])] ∧ s.InStep 0 := by
  have made := Tcp.run_after (by decide +kernel : ((synFrom1000 11).run routedListening).isOk = true)
  have first : SendStream.Step 0 synAnswered twoPassed := by
    refine .next (by decide +kernel) (fun _ => ?_) (by decide +kernel)
    decide +kernel
  have second : SendStream.Step 0 twoPassed (twoPassed.next 0 (ackFrom1000 8 [])) := by
    refine .next (by decide +kernel) (fun _ _ => ?_) (by decide +kernel)
    decide +kernel
  have run := (ReflTransGen.single first).tail second
  have claimed : ((routedListening.after (synFrom1000 11)).1.conns 0).claimed = true := by decide +kernel
  refine ⟨_, run, by decide +kernel, by decide +kernel, ?_⟩
  exact sent_bytes_in_step 0 routedListening _ (synFrom1000 11) _ rfl made claimed _ run

end Xos.Net
