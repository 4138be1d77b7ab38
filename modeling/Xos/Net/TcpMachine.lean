import Xos.Net.TcpOutput

/-!
# TCP as a state machine

A call changes at most one connection, and data may then be sent on all of them. Results about runs go by the cases of
`Delivered` and `Change`, and not by the code.
-/
namespace Xos.Net

open Outcome Function Tcp TcpConnection List Option

namespace Tcp

variable {t : Tcp} {i : Nat}

@[simp] theorem setConn_conns_self (t : Tcp) (i : Nat) (conn : TcpConnection) : (t.setConn i conn).conns i = conn := update_self ..

theorem setConn_conns_of_ne (t : Tcp) {i j : Nat} (other : j ≠ i) (conn : TcpConnection) : (t.setConn i conn).conns j = t.conns j :=
  update_of_ne other ..

@[simp] theorem setConn_setConn (t : Tcp) (i : Nat) (conn conn' : TcpConnection) :
    (t.setConn i conn).setConn i conn' = t.setConn i conn' := by
  rw [setConn, setConn, setConn, update_idem]

@[simp] theorem setConn_self (t : Tcp) (i : Nat) : t.setConn i (t.conns i) = t := by
  rw [setConn, update_eq_self]

theorem withIpId_setConn (t : Tcp) (i : Nat) (conn : TcpConnection) (ipId : BitVec 16) :
    (t.withIpId ipId).setConn i conn = (t.setConn i conn).withIpId ipId := rfl

/-- The tables after a call, and its packets: segments without a payload, and the buffered data where it is sent. -/
structure Output (t : Tcp) (flush : Bool) (t' : Tcp) (emitted : Emitted) : Prop where
  tables : ∃ ipId, t' = (if flush then t.flush else t).withIpId ipId
  packets : ∀ j, ∃ heads data, packetsOf j emitted = heads ++ data ∧ (∀ packet ∈ heads, segmentPayload packet = []) ∧
    (flush = false → data = []) ∧ (flush = true → j < tcpMaxConnections → Carries t.routes (t.conns j).toTcpActiveSocket data)

variable {t' : Tcp} {emitted : Emitted}

theorem Output.conn {flush : Bool} (output : t.Output flush t' emitted) (j : Nat) :
    ∃ tail seq, t'.conns j = { t.conns j with sendTail := tail, seq := seq } := by
  have flushed (conn : TcpConnection) : ∃ tail seq, conn.flushed = { conn with sendTail := tail, seq := seq } := by
    rw [flushed, TcpActiveSocket.flushed]
    split
    next => exact ⟨_, _, rfl⟩
    next => exact ⟨_, _, rfl⟩
  obtain ⟨ipId, rfl⟩ := output.tables
  cases flush with
  | false => exact ⟨_, _, rfl⟩
  | true =>
    simp only [withIpId, flush, if_true]
    split
    next => exact flushed _
    next => exact ⟨_, _, rfl⟩

theorem Output.quiet (t : Tcp) : t.Output false t [] where
  tables := ⟨t.ipId, rfl⟩
  packets _ := ⟨[], [], rfl, fun _ inside => absurd inside not_mem_nil, fun _ => rfl, fun flush => by cases flush⟩

theorem Output.flush (heads : Emitted) (empty : ∀ j, ∀ packet ∈ packetsOf j heads, segmentPayload packet = [])
    (tables : ∃ ipId, t' = t.flush.withIpId ipId)
    (carries : ∀ j < tcpMaxConnections, Carries t.routes (t.conns j).toTcpActiveSocket (packetsOf j emitted)) :
    t.Output true t' (heads ++ emitted) where
  tables := tables
  packets j := ⟨packetsOf j heads, packetsOf j emitted, packetsOf_append .., empty j, fun flush => (by cases flush), fun _ => carries j⟩

theorem Output.heads {heads : Emitted} (empty : ∀ j, ∀ packet ∈ packetsOf j heads, segmentPayload packet = [])
    (tables : ∃ ipId, t' = t.withIpId ipId) : t.Output false t' heads where
  tables := tables
  packets j := ⟨packetsOf j heads, [], (append_nil _).symm, empty j, fun _ => rfl, fun flush => by cases flush⟩

theorem sendHeader_output (t : Tcp) (i : Nat) (conn : TcpConnection) (flags : Byte) :
    ((t.setConn i conn).sendHeader i flags).Ensures fun res => (t.setConn i (conn.counted flags)).Output false res.1 res.2 := by
  refine (sendHeader_ensures _ i flags).mono ?_
  rintro ⟨t', emitted⟩ ⟨tables, empty⟩
  rw [setConn_conns_self, setConn_setConn] at tables
  exact .heads empty tables

theorem Output.empty (output : t.Output false t' emitted) : ∀ j, ∀ packet ∈ packetsOf j emitted, segmentPayload packet = [] := by
  intro j packet inside
  obtain ⟨heads, data, all, empty, none, -⟩ := output.packets j
  rw [all, none rfl, append_nil] at inside
  exact empty packet inside

theorem Output.of_withIpId {ipId : BitVec 16} {flush : Bool}
    (output : (t.withIpId ipId).Output flush t' emitted) : t.Output flush t' emitted where
  tables := by
    obtain ⟨next, tables⟩ := output.tables
    refine ⟨next, tables.trans ?_⟩
    cases flush <;> rfl
  packets := output.packets

theorem Output.sendBufferedData {heads : Emitted} (output : t.Output false t' heads) :
    t'.sendBufferedData.Ensures fun res => t.Output true res.1 (heads ++ res.2) := by
  obtain ⟨ipId, tables⟩ := output.tables
  refine t'.sendBufferedData_ensures.mono ?_
  rintro ⟨t'', emitted⟩ ⟨⟨ipId', same⟩, carries, -⟩
  rw [tables] at same carries
  exact .flush heads output.empty ⟨ipId', same⟩ carries

theorem sendBufferedData_output (t : Tcp) : t.sendBufferedData.Ensures fun res => t.Output true res.1 res.2 := by
  refine t.sendBufferedData_ensures.mono ?_
  rintro ⟨t', emitted⟩ ⟨tables, carries, -⟩
  exact .flush [] (fun _ _ inside => absurd inside not_mem_nil) tables carries

end Tcp

theorem TcpConnection.counted_none (conn : TcpConnection) {flags : Byte}
    (none : flags &&& (tcpSyn ||| tcpFin) = 0) : conn.counted flags = conn := by
  have same : conn.toTcpActiveSocket.counted flags = conn.toTcpActiveSocket := if_neg (not_not.mpr none)
  rw [counted, same]

theorem TcpConnection.store_nil (conn : TcpConnection) : conn.store [] = conn := by
  simp [store, ringWrite]

def TcpConnection.finished (conn : TcpConnection) (flags : Byte) (state : TcpState) (answer : Byte) : TcpConnection :=
  if flags &&& tcpFin ≠ 0 then ({ conn with state := state } : TcpConnection).counted answer else conn

def TcpConnection.advance (conn : TcpConnection) (flags : Byte) (payload : List Byte) : TcpConnection :=
  match conn.state with
  | .closed | .listen | .synSent | .synReceived => conn
  | .established => (conn.store payload).finished flags .lastAck (tcpAck ||| tcpFin)
  | .finWait1 => (if flags &&& tcpAck ≠ 0 then { conn with state := .finWait2 } else conn).finished flags .timeWait tcpAck
  | .finWait2 => conn.finished flags .timeWait tcpAck
  | .closeWait | .closing | .timeWait | .lastAck => if flags &&& tcpAck ≠ 0 then conn.close else conn

def TcpState.Open (state : TcpState) : Prop := state = .synSent ∨ state = .synReceived ∨ state = .established

def TcpState.Ending (state : TcpState) : Prop := state = .finWait2 ∨ state = .timeWait ∨ state = .lastAck

def TcpState.Closing (state : TcpState) : Prop := state = .closeWait ∨ state = .closing ∨ state = .timeWait ∨ state = .lastAck

theorem TcpState.Ending.not_open {state : TcpState} (ending : state.Ending) : ¬state.Open := by
  rcases ending with rfl | rfl | rfl <;> simp [Open]

theorem TcpConnection.close_not_open (conn : TcpConnection) : ¬conn.close.state.Open := by
  simp [TcpState.Open, close]

theorem TcpConnection.finished_eq (conn : TcpConnection) (flags : Byte) {state : TcpState} (ending : state.Ending) (answer : Byte) :
    ∃ state' seq, conn.finished flags state answer = { conn with state := state', seq := seq } ∧
      (state' = conn.state ∧ seq = conn.seq ∨ state'.Ending) := by
  rw [finished]
  split
  next =>
    rw [counted, TcpActiveSocket.counted]
    split
    next => exact ⟨state, _, rfl, .inr ending⟩
    next => exact ⟨state, _, rfl, .inr ending⟩
  next => exact ⟨_, _, rfl, .inl ⟨rfl, rfl⟩⟩

/-- All that `advance` can do: a payload is stored in ESTABLISHED, the state and the number move on, or the connection
is closed. -/
theorem TcpConnection.advance_cases (conn : TcpConnection) (flags : Byte) (payload : List Byte) :
    (∃ state seq, conn.advance flags payload =
      { (if conn.state = .established then conn.store payload else conn) with state := state, seq := seq } ∧
        (state = conn.state ∧ seq = conn.seq ∨ state.Ending ∧ conn.state ≠ .synSent ∧ conn.state ≠ .synReceived)) ∨
    conn.state.Closing ∧ flags &&& tcpAck ≠ 0 ∧ conn.advance flags payload = conn.close := by
  have kept : ∃ state seq, conn = { conn with state := state, seq := seq } ∧
      (state = conn.state ∧ seq = conn.seq ∨ state.Ending ∧ conn.state ≠ .synSent ∧ conn.state ≠ .synReceived) :=
    ⟨_, _, rfl, .inl ⟨rfl, rfl⟩⟩
  have closing (closing : conn.state.Closing) : (∃ state seq, (if flags &&& tcpAck ≠ 0 then conn.close else conn) =
      { conn with state := state, seq := seq } ∧
        (state = conn.state ∧ seq = conn.seq ∨ state.Ending ∧ conn.state ≠ .synSent ∧ conn.state ≠ .synReceived)) ∨
      conn.state.Closing ∧ flags &&& tcpAck ≠ 0 ∧ (if flags &&& tcpAck ≠ 0 then conn.close else conn) = conn.close := by
    split
    next ack => exact .inr ⟨closing, ack, rfl⟩
    next => exact .inl kept
  cases state : conn.state with
  | closed | listen | synSent | synReceived =>
    rw [state] at kept
    simpa [advance, state] using Or.inl kept
  | established =>
    obtain ⟨state', seq, same, moved⟩ := (conn.store payload).finished_eq flags (.inr (.inr rfl)) (tcpAck ||| tcpFin)
    refine .inl ⟨state', seq, ?_, ?_⟩
    · simp only [advance, state, same, if_true]
    · exact moved.imp (fun kept => ⟨kept.1.trans state, kept.2⟩) fun ending => ⟨ending, by decide, by decide⟩
  | finWait1 =>
    refine .inl ?_
    simp only [advance, state]
    split
    next =>
      obtain ⟨state', seq, same, moved⟩ :=
        ({ conn with state := .finWait2 } : TcpConnection).finished_eq flags (.inr (.inl rfl)) tcpAck
      refine ⟨state', seq, by simpa using same, .inr ⟨?_, by decide, by decide⟩⟩
      exact moved.elim (fun kept => .inl kept.1) fun ending => ending
    next =>
      obtain ⟨state', seq, same, moved⟩ := conn.finished_eq flags (.inr (.inl rfl)) tcpAck
      refine ⟨state', seq, by simpa using same, ?_⟩
      exact moved.imp (fun kept => ⟨kept.1.trans state, kept.2⟩) fun ending => ⟨ending, by decide, by decide⟩
  | finWait2 =>
    obtain ⟨state', seq, same, moved⟩ := conn.finished_eq flags (.inr (.inl rfl)) tcpAck
    refine .inl ⟨state', seq, by simpa [advance, state] using same, ?_⟩
    exact moved.imp (fun kept => ⟨kept.1.trans state, kept.2⟩) fun ending => ⟨ending, by decide, by decide⟩
  | closeWait | closing | timeWait | lastAck =>
    have cases := closing (by simp [TcpState.Closing, state])
    rw [state] at cases
    simpa [advance, state] using cases

/-- The ways through the `switch`, with the tables before buffered data is sent, and whether it is. -/
inductive Switched (t : Tcp) (i : Nat) (header : TcpHeader) (payload : List Byte) : Tcp → Bool → Prop where
  | connected (state : (t.conns i).state = .synSent) (flags : header.flags &&& (tcpSyn ||| tcpAck) = tcpSyn ||| tcpAck) :
    Switched t i header payload (t.setConn i { t.conns i with state := .established }) true
  | accepted {l : Nat} (state : (t.conns i).state = .synReceived) (flags : header.flags &&& tcpAck ≠ 0)
    (listener : t.resolvePassive (htons header.dstPort) = some l) :
    Switched t i header payload ((t.setListener l { t.listeners l with backlog := (t.listeners l).backlog.write (t.conns i).id }).setConn i
      { t.conns i with state := .established }) true
  | advanced (stays : (t.conns i).state = .synSent → header.flags &&& (tcpSyn ||| tcpAck) ≠ tcpSyn ||| tcpAck) :
    Switched t i header payload (t.setConn i ((t.conns i).advance header.flags payload)) false

variable {t t₁ : Tcp} {call : TcpCall}

theorem Switched.conns_of_ne {i j : Nat} {header : TcpHeader} {payload : List Byte} {flush : Bool}
    (switched : Switched t i header payload t₁ flush) (other : j ≠ i) : t₁.conns j = t.conns j := by
  cases switched with
  | connected state flags => exact setConn_conns_of_ne _ other _
  | accepted state flags listener => exact setConn_conns_of_ne _ other _
  | advanced stays => exact setConn_conns_of_ne _ other _

theorem tcpOnFin_output (t : Tcp) (i : Nat) (conn : TcpConnection) (header : TcpHeader) (state : TcpState) (answer : Byte) :
    (tcpOnFin (t.setConn i conn) i header state answer).Ensures fun res =>
      (t.setConn i (conn.finished header.flags state answer)).Output false res.1 res.2 := by
  rw [tcpOnFin, finished, setConn_conns_self, setConn_setConn]
  refine .ite (fun fin => ?_) fun none => ?_
  · rw [if_pos fin]
    exact sendHeader_output t i _ answer
  · rw [if_neg none]
    exact .pure (.quiet _)

theorem tcpOnPayload_output (t : Tcp) (i : Nat) (payload : List Byte) :
    (tcpOnPayload t i payload).Ensures fun res => (t.setConn i ((t.conns i).store payload)).Output false res.1 res.2 := by
  refine .ite (fun _ => ?_) fun none => ?_
  · have output := sendHeader_output t i ((t.conns i).store payload) tcpAck
    rwa [counted_none _ (by decide)] at output
  · rw [not_not.mp none, store_nil, setConn_self]
    exact .pure (.quiet t)

theorem Tcp.Output.append {t' : Tcp} {first second : Emitted}
    (before : ∀ j, ∀ packet ∈ packetsOf j first, segmentPayload packet = [])
    (output : t.Output false t' second) : t.Output false t' (first ++ second) := by
  refine .heads (fun j packet inside => ?_) output.tables
  rw [packetsOf_append] at inside
  rcases mem_append.mp inside with old | new
  · exact before j packet old
  · exact output.empty j packet new

section Switch

variable {t : Tcp} {i : Nat} {header : TcpHeader} {payload : List Byte}

/-- The tables and the packets after one of the ways through the `switch`. -/
def SwitchedTo (t : Tcp) (i : Nat) (header : TcpHeader) (payload : List Byte) (result : Tcp × Emitted) : Prop :=
  ∃ t₁ flush, Switched t i header payload t₁ flush ∧ t₁.Output flush result.1 result.2

def Stays (t : Tcp) (i : Nat) (header : TcpHeader) : Prop :=
  (t.conns i).state = .synSent → header.flags &&& (tcpSyn ||| tcpAck) ≠ tcpSyn ||| tcpAck

theorem stays_of_state {state : TcpState} (state' : (t.conns i).state = state) (other : state ≠ .synSent) : Stays t i header :=
  fun sent => absurd (state'.symm.trans sent) other

theorem Switched.moved (stays : Stays t i header) {conn : TcpConnection}
    (same : (t.conns i).advance header.flags payload = conn) : Switched t i header payload (t.setConn i conn) false := by
  rw [← same]
  exact .advanced stays

section

variable (stays : Stays t i header) (same : (t.conns i).advance header.flags payload = t.conns i)
include stays same

theorem Switched.kept : Switched t i header payload t false := by
  have switched := Switched.moved stays same
  rwa [setConn_self] at switched

theorem sendReset_ensures : (t.sendHeader i tcpRst).Ensures (SwitchedTo t i header payload) := by
  have output := sendHeader_output t i (t.conns i) tcpRst
  rw [counted_none _ (by decide), setConn_self] at output
  exact output.mono fun _ output => ⟨t, false, .kept stays same, output⟩

end

theorem tcpOnState_synSent (state : (t.conns i).state = .synSent) :
    (tcpOnState t i header payload).Ensures (SwitchedTo t i header payload) := by
  simp only [tcpOnState, state]
  refine .ite (fun flags => ?_) fun flags => ?_
  · refine .bind (sendHeader_output t i _ tcpAck) ?_
    rintro ⟨t', heads⟩ output
    rw [counted_none _ (by decide)] at output
    refine .bind output.sendBufferedData ?_
    rintro ⟨t'', data⟩ flushed
    exact .pure ⟨_, _, .connected state flags, flushed⟩
  · exact sendReset_ensures (fun _ => flags) (by simp [advance, state])

theorem tcpOnState_synReceived (state : (t.conns i).state = .synReceived) :
    (tcpOnState t i header payload).Ensures (SwitchedTo t i header payload) := by
  have same : (t.conns i).advance header.flags payload = t.conns i := by simp [advance, state]
  have stays : Stays t i header := stays_of_state state (by decide)
  simp only [tcpOnState, state]
  refine .ite (fun flags => ?_) fun _ => sendReset_ensures stays same
  cases listener : t.resolvePassive (htons header.dstPort) with
  | none => exact .pure ⟨t, false, .kept stays same, .quiet t⟩
  | some l =>
    refine (sendBufferedData_output _).mono ?_
    intro res output
    exact ⟨_, _, .accepted state flags listener, output⟩

theorem tcpOnState_established (state : (t.conns i).state = .established) :
    (tcpOnState t i header payload).Ensures (SwitchedTo t i header payload) := by
  simp only [tcpOnState, state]
  refine .bind (tcpOnPayload_output t i payload) ?_
  rintro ⟨t', acks⟩ output
  obtain ⟨ipId, rfl⟩ := output.tables
  -- the payload and FIN are answered by a segment each
  refine .bind (tcpOnFin_output (t.withIpId ipId) i ((t.conns i).store payload) header .lastAck (tcpAck ||| tcpFin)) ?_
  rintro ⟨t'', fins⟩ fin
  rw [withIpId_setConn] at fin
  have switched : Switched t i header payload (t.setConn i _) false := .advanced (stays_of_state state (by decide))
  simp only [advance, state] at switched
  exact .pure ⟨_, _, switched, .append output.empty fin.of_withIpId⟩

theorem tcpOnState_finWait1 (state : (t.conns i).state = .finWait1) :
    (tcpOnState t i header payload).Ensures (SwitchedTo t i header payload) := by
  have switched : Switched t i header payload (t.setConn i _) false := .advanced (stays_of_state state (by decide))
  simp only [advance, state] at switched
  -- the state is set first, and FIN is tested in either case
  have waits : (if header.flags &&& tcpAck ≠ 0 then t.setConn i { t.conns i with state := .finWait2 } else t) =
      t.setConn i (if header.flags &&& tcpAck ≠ 0 then { t.conns i with state := .finWait2 } else t.conns i) := by
    split
    next => rfl
    next => rw [setConn_self]
  simp only [tcpOnState, state, waits]
  exact (tcpOnFin_output t i _ header .timeWait tcpAck).mono fun _ output => ⟨_, _, switched, output⟩

theorem tcpOnState_finWait2 (state : (t.conns i).state = .finWait2) :
    (tcpOnState t i header payload).Ensures (SwitchedTo t i header payload) := by
  have switched : Switched t i header payload (t.setConn i _) false := .advanced (stays_of_state state (by decide))
  simp only [advance, state] at switched
  have output := tcpOnFin_output t i (t.conns i) header .timeWait tcpAck
  rw [setConn_self] at output
  simp only [tcpOnState, state]
  exact output.mono fun _ output => ⟨_, _, switched, output⟩

theorem tcpOnState_closing (state : (t.conns i).state.Closing) :
    (tcpOnState t i header payload).Ensures (SwitchedTo t i header payload) := by
  obtain ⟨stays, same, code⟩ : Stays t i header ∧
      (t.conns i).advance header.flags payload = (if header.flags &&& tcpAck ≠ 0 then (t.conns i).close else t.conns i) ∧
      tcpOnState t i header payload = if header.flags &&& tcpAck ≠ 0 then pure (t.setConn i (t.conns i).close, []) else pure (t, []) := by
    rcases state with state | state | state | state
    all_goals exact ⟨stays_of_state state (by decide), by simp only [advance, state], by simp only [tcpOnState, state]⟩
  rw [code]
  refine .ite (fun ack => ?_) fun none => ?_
  · exact .pure ⟨_, _, .moved stays (same.trans (if_pos ack)), .quiet _⟩
  · exact .pure ⟨_, _, .kept stays (same.trans (if_neg none)), .quiet _⟩

theorem tcpOnState_idle (state : (t.conns i).state = .closed ∨ (t.conns i).state = .listen) :
    (tcpOnState t i header payload).Ensures (SwitchedTo t i header payload) := by
  obtain ⟨stays, same, code⟩ : Stays t i header ∧
      (t.conns i).advance header.flags payload = t.conns i ∧ tcpOnState t i header payload = pure (t, []) := by
    rcases state with state | state
    all_goals exact ⟨stays_of_state state (by decide), by simp only [advance, state], by simp only [tcpOnState, state]⟩
  rw [code]
  exact .pure ⟨t, false, .kept stays same, .quiet t⟩

end Switch

theorem tcpOnState_ensures (t : Tcp) (i : Nat) (header : TcpHeader) (payload : List Byte) :
    (tcpOnState t i header payload).Ensures (SwitchedTo t i header payload) := by
  cases state : (t.conns i).state with
  | closed => exact tcpOnState_idle (.inl state)
  | listen => exact tcpOnState_idle (.inr state)
  | synSent => exact tcpOnState_synSent state
  | synReceived => exact tcpOnState_synReceived state
  | established => exact tcpOnState_established state
  | finWait1 => exact tcpOnState_finWait1 state
  | finWait2 => exact tcpOnState_finWait2 state
  | closeWait => exact tcpOnState_closing (.inl state)
  | closing => exact tcpOnState_closing (.inr (.inl state))
  | timeWait => exact tcpOnState_closing (.inr (.inr (.inl state)))
  | lastAck => exact tcpOnState_closing (.inr (.inr (.inr state)))

structure Arrival where
  src : Ipv4Addr
  header : TcpHeader
  payloadLen : BitVec 16
  payload : List Byte

def arrival (src : Ipv4Addr) (data : Nat → Byte) (dataLen : BitVec 16) : Arrival where
  src := src
  header := .ofMemory data
  payloadLen := dataLen - (TcpHeader.ofMemory data).len
  payload := bytesFrom data (TcpHeader.ofMemory data).len.toNat (dataLen - (TcpHeader.ofMemory data).len).toNat

namespace Tcp

variable {t : Tcp} {i : Nat}

def resolve (t : Tcp) (a : Arrival) : Option Nat := t.resolveConn 0 a.src (htons a.header.dstPort) (htons a.header.srcPort)

def freeConn (t : Tcp) : Option Nat := (range tcpMaxConnections).find? fun i => !(t.conns i).claimed

/-- The new connection that `create_active` puts there. -/
def newConn (id : BitVec 16) (remoteAddr : Ipv4Addr) (localPort remotePort : BitVec 16) (random : BitVec 32) : TcpConnection where
  state := .closed
  localIp := 0
  remoteIp := remoteAddr
  localPort := localPort
  remotePort := remotePort
  seq := random
  ack := 0
  sendBuf := fun _ => 0
  sendHead := 0
  sendTail := 0
  id := id
  claimed := true
  initialSeq := random
  recvBuf := fun _ => 0
  recvHead := 0
  recvTail := 0

theorem createActive_eq (t : Tcp) (id : BitVec 16) (remoteAddr : Ipv4Addr) (localPort remotePort : BitVec 16) (random : BitVec 32) :
    t.createActive id 0 remoteAddr localPort remotePort random =
      t.freeConn.map fun i => (i, t.setConn i (newConn id remoteAddr localPort remotePort random)) := rfl

theorem of_resolve {a : Arrival} (known : t.resolve a = some i) : i < tcpMaxConnections ∧ (t.conns i).claimed = true ∧
    (t.conns i).remoteIp = a.src ∧ (t.conns i).localPort = htons a.header.dstPort ∧
      (t.conns i).remotePort = htons a.header.srcPort := by
  rw [resolve, resolveConn] at known
  have found := find?_some known
  rw [decide_eq_true_eq] at found
  exact ⟨mem_range.mp (mem_of_find?_eq_some known), found.1, found.2.2⟩

theorem of_freeConn (free : t.freeConn = some i) : i < tcpMaxConnections ∧ (t.conns i).claimed = false :=
  ⟨mem_range.mp (mem_of_find?_eq_some free), by simpa using find?_some free⟩

theorem of_getConn {connId : BitVec 32} (found : t.getConn connId = some i) :
    i < tcpMaxConnections ∧ (t.conns i).id.setWidth 32 = connId :=
  ⟨mem_range.mp (mem_of_find?_eq_some found), by simpa using find?_some found⟩

structure Opens (t : Tcp) (a : Arrival) (l k : Nat) : Prop where
  listener : t.resolvePassive (htons a.header.dstPort) = some l
  room : (t.listeners l).backlog.full = false
  syn : a.header.flags = tcpSyn
  free : t.freeConn = some k

structure Takes (t : Tcp) (a : Arrival) (i : Nat) : Prop where
  known : t.resolve a = some i
  plain : a.header.flags &&& tcpRst = 0
  ordered : (t.conns i).state = .synSent ∨ htonl a.header.seqNum = (t.conns i).ack

end Tcp

def Arrival.opened (a : Arrival) (id : BitVec 16) (random : BitVec 32) : TcpConnection :=
  { newConn id a.src (htons a.header.dstPort) (htons a.header.srcPort) random with
    state := .synReceived
    ack := htonl a.header.seqNum + 1
    seq := random + 1 }

/-- The ways through `tcp_on_data` for a segment that is long enough. -/
inductive Delivered (t : Tcp) (a : Arrival) (id : BitVec 16) (random : BitVec 32) : Tcp → Bool → Prop where
  | refused (unknown : t.resolve a = none) (closed : ¬∃ l k, t.Opens a l k) : Delivered t a id random t false
  | opened {l k : Nat} (unknown : t.resolve a = none) (opens : t.Opens a l k) : Delivered t a id random (t.setConn k (a.opened id random)) false
  | reset {i : Nat} (known : t.resolve a = some i) (rst : a.header.flags &&& tcpRst ≠ 0) :
    Delivered t a id random (t.setConn i (t.conns i).close) false
  | unordered {i : Nat} (known : t.resolve a = some i) (plain : a.header.flags &&& tcpRst = 0) (idle : (t.conns i).state ≠ .synSent)
    (other : htonl a.header.seqNum ≠ (t.conns i).ack) : Delivered t a id random t false
  | taken {i : Nat} {t₁ : Tcp} {flush : Bool} (takes : t.Takes a i)
    (switched : Switched (t.setConn i ((t.conns i).acknowledge a.header a.payloadLen)) i a.header a.payload t₁ flush) :
    Delivered t a id random t₁ flush

theorem tcpOnIncoming_ensures {a : Arrival} (unknown : t.resolve a = none) (id : BitVec 16) (random : BitVec 32) :
    (tcpOnIncoming t a.src a.header id random).Ensures fun res =>
      ∃ t₁, Delivered t a id random t₁ false ∧ t₁.Output false res.1 res.2 := by
  have refused (closed : ¬∃ l k, t.Opens a l k) : ∃ t₁, Delivered t a id random t₁ false ∧ t₁.Output false t [] :=
    ⟨t, .refused unknown closed, .quiet t⟩
  simp only [tcpOnIncoming]
  cases listener : t.resolvePassive (htons a.header.dstPort) with
  | none =>
    refine .pure (refused ?_)
    rintro ⟨l, k, opens⟩
    cases listener.symm.trans opens.listener
  | some l =>
    have same {l' : Nat} (found : t.resolvePassive (htons a.header.dstPort) = some l') : l = l' :=
      mem_unique listener found
    refine .ite (fun full => ?_) fun room => ?_
    · refine .pure (refused ?_)
      rintro ⟨l', k, opens⟩
      obtain rfl := same opens.listener
      rw [opens.room] at full
      cases full
    refine .ite (fun other => ?_) fun syn => ?_
    · refine .pure (refused ?_)
      rintro ⟨l', k, opens⟩
      exact other opens.syn
    rw [createActive_eq]
    cases free : t.freeConn with
    | none =>
      refine .pure (refused ?_)
      rintro ⟨l', k, opens⟩
      cases free.symm.trans opens.free
    | some k =>
      simp only [map_some, setConn_setConn, setConn_conns_self]
      refine (sendHeader_output t k _ (tcpSyn ||| tcpAck)).mono ?_
      intro res output
      exact ⟨_, .opened unknown ⟨listener, by simpa using room, not_not.mp syn, free⟩, output⟩

theorem tcpOnData_short (t : Tcp) (src : Ipv4Addr) (data : Nat → Byte) {dataLen : BitVec 16} (id : BitVec 16) (random : BitVec 32)
    (short : dataLen.toNat < 20) : tcpOnData t src data dataLen id random = .ok ⟨t, [], []⟩ := by
  rw [tcpOnData, if_pos short]
  rfl

def Tcp.readsOf (t : Tcp) (a : Arrival) : List Nat :=
  match t.resolve a with
  | none => []
  | some i =>
    if a.header.flags &&& tcpRst = 0 ∧ (t.conns i).state = .established ∧ htonl a.header.seqNum = (t.conns i).ack then
      (range a.payloadLen.toNat).map (a.header.len.toNat + ·)
    else []

theorem tcpOnData_ensures (t : Tcp) (src : Ipv4Addr) (data : Nat → Byte) {dataLen : BitVec 16} (id : BitVec 16) (random : BitVec 32)
    (long : 20 ≤ dataLen.toNat) : (tcpOnData t src data dataLen id random).Ensures fun received =>
      ∃ t₁ flush, Delivered t (arrival src data dataLen) id random t₁ flush ∧ t₁.Output flush received.tcp received.emitted ∧
        received.reads = t.readsOf (arrival src data dataLen) := by
  rw [tcpOnData, if_neg (Nat.not_lt.mpr long)]
  generalize made : arrival src data dataLen = a
  obtain ⟨rfl, header, length, payload⟩ : a.src = src ∧ a.header = .ofMemory data ∧
      a.payloadLen = dataLen - a.header.len ∧
      a.payload = bytesFrom data a.header.len.toNat a.payloadLen.toNat := by
    subst made
    exact ⟨rfl, rfl, rfl, rfl⟩
  simp only [← header, ← length, ← payload]
  have resolved : t.resolveConn 0 a.src (htons a.header.dstPort) (htons a.header.srcPort) = t.resolve a := rfl
  rw [resolved, readsOf]
  cases known : t.resolve a with
  | none =>
    refine .bind (tcpOnIncoming_ensures known id random) ?_
    rintro ⟨t', emitted⟩ ⟨t₁, delivered, output⟩
    exact .pure ⟨t₁, false, delivered, output, rfl⟩
  | some i =>
    refine .ite (fun rst => ?_) fun plain => ?_
    · exact .pure ⟨_, _, .reset known rst, .quiet _, (if_neg fun read => rst read.1).symm⟩
    refine .ite (fun skipped => ?_) fun ordered => ?_
    · exact .pure ⟨t, false, .unordered known (not_not.mp plain) skipped.1 skipped.2, .quiet t,
        (if_neg fun read => skipped.2 read.2.2).symm⟩
    have ordered : (t.conns i).state = .synSent ∨ htonl a.header.seqNum = (t.conns i).ack := by
      rwa [not_and_or, not_not, not_not] at ordered
    refine .bind (tcpOnState_ensures _ i a.header a.payload) ?_
    rintro ⟨t', emitted⟩ ⟨t₁, flush, switched, output⟩
    refine .pure ⟨t₁, flush, .taken ⟨known, not_not.mp plain, ordered⟩ switched, output, ?_⟩
    refine if_congr ⟨fun state => ⟨not_not.mp plain, state, ?_⟩, fun read => read.2.1⟩ rfl rfl
    rcases ordered with sent | same
    · cases state.symm.trans sent
    · exact same

/-- The port that `tcp_active` takes for a connection. -/
def Tcp.Chooses (t : Tcp) (localPort port : BitVec 16) : Prop :=
  if localPort = 0 then port = t.getEphemeralPort.1 else port = localPort ∧ t.isPortUsed localPort = false

/-- A connection after `tcp_send` has put bytes into its buffer. -/
def TcpConnection.push (conn : TcpConnection) (data : Nat → Byte) (dataLen : BitVec 16) : TcpConnection :=
  { conn with
    sendBuf := ringWrite sendBufSize conn.sendBuf conn.sendHead (bytesFrom data 0 dataLen.toNat)
    sendHead := conn.sendHead + dataLen.setWidth 32 }

/-- The connection that a call changes, and what it then is, before buffered data is sent. -/
inductive Change (t : Tcp) : TcpCall → Nat → TcpConnection → Prop where
  | active {id : BitVec 16} {remoteAddr : Ipv4Addr} {remotePort localPort port : BitVec 16} {random : BitVec 32} {k : Nat}
    (chosen : t.Chooses localPort port) (free : t.freeConn = some k) :
    Change t (.active id remoteAddr remotePort localPort random) k
      { newConn id remoteAddr port remotePort random with state := .synSent, seq := random + 1 }
  | rebound {newId id connId : BitVec 16} {l k : Nat} {backlog : Backlog} (listener : t.getPassive id = some l)
    (entry : (t.listeners l).backlog.read = some (connId, backlog)) (valid : connId ≠ 0) (found : t.getConn (connId.setWidth 32) = some k) :
    Change t (.accept newId id) k { t.conns k with id := newId }
  | terminated {connId : BitVec 32} {k : Nat} (found : t.getConn connId = some k) :
    Change t (.terminate connId) k { t.conns k with state := .finWait1, seq := (t.conns k).seq + 1 }
  | opened {src : Ipv4Addr} {data : Nat → Byte} {dataLen id : BitVec 16} {random : BitVec 32} {l k : Nat}
    (unknown : t.resolve (arrival src data dataLen) = none) (opens : t.Opens (arrival src data dataLen) l k) :
    Change t (.segment src data dataLen id random) k ((arrival src data dataLen).opened id random)
  | reset {src : Ipv4Addr} {data : Nat → Byte} {dataLen id : BitVec 16} {random : BitVec 32} {k : Nat}
    (known : t.resolve (arrival src data dataLen) = some k) : Change t (.segment src data dataLen id random) k (t.conns k).close
  | established {src : Ipv4Addr} {data : Nat → Byte} {dataLen id : BitVec 16} {random : BitVec 32} {k : Nat}
    (takes : t.Takes (arrival src data dataLen) k) (state : (t.conns k).state = .synSent ∨ (t.conns k).state = .synReceived)
    (syn : (t.conns k).state = .synSent → (arrival src data dataLen).header.flags &&& (tcpSyn ||| tcpAck) = tcpSyn ||| tcpAck) :
    Change t (.segment src data dataLen id random) k
      { (t.conns k).acknowledge (arrival src data dataLen).header (arrival src data dataLen).payloadLen with state := .established }
  | advanced {src : Ipv4Addr} {data : Nat → Byte} {dataLen id : BitVec 16} {random : BitVec 32} {k : Nat}
    (takes : t.Takes (arrival src data dataLen) k) :
    Change t (.segment src data dataLen id random) k
      (((t.conns k).acknowledge (arrival src data dataLen).header (arrival src data dataLen).payloadLen).advance
        (arrival src data dataLen).header.flags (arrival src data dataLen).payload)
  | pushed {connId : BitVec 32} {data : Nat → Byte} {dataLen : BitVec 16} {k : Nat} (found : t.getConn connId = some k) :
    Change t (.send connId data dataLen) k ((t.conns k).push data dataLen)
  | read {connId : BitVec 32} {dataLen : BitVec 16} {k : Nat} (found : t.getConn connId = some k) :
    Change t (.receive connId dataLen) k
      { t.conns k with
        recvTail := (t.conns k).recvTail + BitVec.ofNat 32 (min dataLen.toNat ((t.conns k).recvHead - (t.conns k).recvTail).toNat) }

structure Acts (t : Tcp) (call : TcpCall) (t₁ : Tcp) : Prop where
  conns : t₁.conns = t.conns ∨ ∃ k conn, Change t call k conn ∧ t₁.conns = update t.conns k conn
  routes : t₁.routes = t.routes

theorem Acts.conn (acts : Acts t call t₁) (i : Nat) : t₁.conns i = t.conns i ∨ Change t call i (t₁.conns i) := by
  rcases acts.conns with same | ⟨k, conn, change, set⟩
  · left
    rw [same]
  · rw [set]
    by_cases here : i = k
    · subst here
      right
      rw [update_self]
      exact change
    · left
      rw [update_of_ne here]

theorem tcpActive_ensures (t : Tcp) (id : BitVec 16) (remoteAddr : Ipv4Addr)
    (remotePort localPort : BitVec 16) (random : BitVec 32) :
    (tcpActive t id remoteAddr remotePort localPort random).Ensures fun res =>
      ∃ t₁, Acts t (.active id remoteAddr remotePort localPort random) t₁ ∧ t₁.Output false res.2.1 res.2.2 := by
  rw [tcpActive]
  refine .ite (fun _ => .pure ⟨t, ⟨.inl rfl, rfl⟩, .quiet t⟩) fun _ => ?_
  refine .ite (fun _ => .pure ⟨t, ⟨.inl rfl, rfl⟩, .quiet t⟩) fun unused => ?_
  -- whichever way the port is chosen, only the counter differs in the tables
  obtain ⟨port, counter, same, chosen⟩ : ∃ port counter,
      (if localPort = 0 then t.getEphemeralPort else (localPort, t)) = (port, { t with port := counter }) ∧ t.Chooses localPort port := by
    by_cases any : localPort = 0
    · refine ⟨t.getEphemeralPort.1, _, if_pos any, ?_⟩
      rw [Tcp.Chooses, if_pos any]
    · refine ⟨localPort, t.port, if_neg any, ?_⟩
      rw [Tcp.Chooses, if_neg any]
      exact ⟨rfl, Bool.eq_false_iff.mpr fun used => unused ⟨any, used⟩⟩
  rw [same]
  dsimp only
  rw [createActive_eq]
  cases free : t.freeConn with
  | none =>
    have none : freeConn { t with port := counter } = none := free
    rw [none]
    exact .pure ⟨{ t with port := counter }, ⟨.inl rfl, rfl⟩, .quiet _⟩
  | some k =>
    have some : freeConn { t with port := counter } = some k := free
    rw [some]
    simp only [map_some, setConn_setConn, setConn_conns_self]
    refine .bind (sendHeader_output { t with port := counter } k _ tcpSyn) ?_
    rintro ⟨t', emitted⟩ output
    exact .pure ⟨setConn { t with port := counter } k _, ⟨.inr ⟨k, _, .active chosen free, rfl⟩, rfl⟩, output⟩

theorem Delivered.acts {src : Ipv4Addr} {data : Nat → Byte} {dataLen id : BitVec 16} {random : BitVec 32} {flush : Bool}
    (delivered : Delivered t (arrival src data dataLen) id random t₁ flush) : Acts t (.segment src data dataLen id random) t₁ := by
  cases delivered with
  | refused unknown closed => exact ⟨.inl rfl, rfl⟩
  | opened unknown opens => exact ⟨.inr ⟨_, _, .opened unknown opens, rfl⟩, rfl⟩
  | reset known rst => exact ⟨.inr ⟨_, _, .reset known, rfl⟩, rfl⟩
  | unordered known plain idle other => exact ⟨.inl rfl, rfl⟩
  | taken takes switched =>
    rename_i i
    have kept : ((t.conns i).acknowledge (arrival src data dataLen).header (arrival src data dataLen).payloadLen).state = (t.conns i).state := rfl
    cases switched with
    | connected state flags =>
      rw [setConn_conns_self, kept] at state
      rw [setConn_conns_self, setConn_setConn]
      exact ⟨.inr ⟨i, _, .established takes (.inl state) fun _ => flags, rfl⟩, rfl⟩
    | accepted state flags listener =>
      rw [setConn_conns_self, kept] at state
      refine ⟨.inr ⟨i, _, .established takes (.inr state) fun sent => ?_, ?_⟩, rfl⟩
      · cases state.symm.trans sent
      · simp [setConn, setListener]
    | advanced stays =>
      rw [setConn_conns_self, setConn_setConn]
      exact ⟨.inr ⟨i, _, .advanced takes, rfl⟩, rfl⟩

theorem tcpTerminateConnection_ensures (t : Tcp) {connId : BitVec 32} {k : Nat} (found : t.getConn connId = some k) :
    (tcpTerminateConnection t connId).Ensures fun res =>
      (t.setConn k { t.conns k with state := .finWait1, seq := (t.conns k).seq + 1 }).Output false res.2.1 res.2.2 := by
  rw [tcpTerminateConnection, found]
  refine .bind (sendHeader_output t k _ tcpFin) ?_
  rintro ⟨t', emitted⟩ output
  exact .pure output

theorem tcpSend_ensures (t : Tcp) {connId : BitVec 32} (data : Nat → Byte) (dataLen : BitVec 16)
    {k : Nat} (found : t.getConn connId = some k) :
    (tcpSend t connId data dataLen).Ensures fun res =>
      ∃ flush, (t.setConn k ((t.conns k).push data dataLen)).Output flush res.2.1 res.2.2 := by
  rw [tcpSend, found]
  refine .ite (fun none => ?_) fun _ => ?_
  · have same : (t.conns k).push data dataLen = t.conns k := by simp [push, none, bytesFrom, ringWrite]
    rw [same, setConn_self]
    exact .pure ⟨false, .quiet t⟩
  · refine .bind (sendBufferedData_output _) ?_
    rintro ⟨t', emitted⟩ output
    exact .pure ⟨true, output⟩

theorem TcpCall.send_ensures (t : Tcp) {connId : BitVec 32} (data : Nat → Byte) (dataLen : BitVec 16) {k : Nat}
    (found : t.getConn connId = some k) : ((TcpCall.send connId data dataLen).run t).Ensures fun res =>
      ∃ flush, (t.setConn k ((t.conns k).push data dataLen)).Output flush res.1 res.2 := by
  refine .bind (tcpSend_ensures t data dataLen found) ?_
  rintro ⟨ret, t', emitted⟩ output
  exact .pure output

theorem tcpPassive_acts (t : Tcp) (id port : BitVec 16) : Acts t (.passive id port) (tcpPassive t id port).2 := by
  rw [tcpPassive]
  split
  next => exact ⟨.inl rfl, rfl⟩
  next =>
    split
    next => exact ⟨.inl rfl, rfl⟩
    next =>
      rw [createPassive]
      cases (range tcpMaxListeners).find? fun l => decide ((t.listeners l).id = 0) with
      | none => exact ⟨.inl rfl, rfl⟩
      | some l => exact ⟨.inl rfl, rfl⟩

theorem tcpAccept_acts (t : Tcp) (newId id : BitVec 16) : Acts t (.accept newId id) (tcpAccept t newId id).2 := by
  rw [tcpAccept]
  cases listener : t.getPassive id with
  | none => exact ⟨.inl rfl, rfl⟩
  | some l =>
    dsimp only
    cases entry : (t.listeners l).backlog.read with
    | none => exact ⟨.inl rfl, rfl⟩
    | some pair =>
      obtain ⟨connId, backlog⟩ := pair
      dsimp only
      split
      next => exact ⟨.inl rfl, rfl⟩
      next valid =>
        have same : (t.setListener l { t.listeners l with backlog := backlog }).getConn (connId.setWidth 32) =
            t.getConn (connId.setWidth 32) := rfl
        rw [same]
        cases found : t.getConn (connId.setWidth 32) with
        | none => exact ⟨.inl rfl, rfl⟩
        | some k => exact ⟨.inr ⟨k, _, .rebound listener entry valid found, rfl⟩, rfl⟩

theorem TcpCall.run_ensures (t : Tcp) (call : TcpCall) :
    (call.run t).Ensures fun res => ∃ t₁ flush, Acts t call t₁ ∧ t₁.Output flush res.1 res.2 := by
  have nothing (t' : Tcp) (acts : Acts t call t') : ∃ t₁ flush, Acts t call t₁ ∧ t₁.Output flush t' [] := ⟨t', false, acts, .quiet t'⟩
  cases call with
  | active id remoteAddr remotePort localPort random =>
    refine .bind (tcpActive_ensures t id remoteAddr remotePort localPort random) ?_
    rintro ⟨error, t', emitted⟩ ⟨t₁, acts, output⟩
    exact .pure ⟨t₁, false, acts, output⟩
  | passive id port => exact .pure (nothing _ (tcpPassive_acts t id port))
  | accept newId id => exact .pure (nothing _ (tcpAccept_acts t newId id))
  | terminate connId =>
    cases found : t.getConn connId with
    | none =>
      rw [run, tcpTerminateConnection, found]
      exact .pure (nothing t ⟨.inl rfl, rfl⟩)
    | some k =>
      refine .bind (tcpTerminateConnection_ensures t found) ?_
      rintro ⟨ret, t', emitted⟩ output
      exact .pure ⟨t.setConn k _, false, ⟨.inr ⟨k, _, .terminated found, rfl⟩, rfl⟩, output⟩
  | segment src data dataLen id random =>
    by_cases short : dataLen.toNat < 20
    · rw [run, tcpOnData_short t src data id random short]
      exact .pure (nothing t ⟨.inl rfl, rfl⟩)
    · refine .bind (tcpOnData_ensures t src data id random (Nat.not_lt.mp short)) ?_
      rintro received ⟨t₁, flush, delivered, output, -⟩
      exact .pure ⟨t₁, flush, delivered.acts, output⟩
  | send connId data dataLen =>
    cases found : t.getConn connId with
    | none =>
      have refused : tcpSend t connId data dataLen = pure (0, t, []) := by
        rw [tcpSend, found]
        exact ite_self _
      rw [run, refused]
      exact .pure (nothing t ⟨.inl rfl, rfl⟩)
    | some k =>
      refine (send_ensures t data dataLen found).mono ?_
      rintro res ⟨flush, output⟩
      exact ⟨t.setConn k _, flush, ⟨.inr ⟨k, _, .pushed found, rfl⟩, rfl⟩, output⟩
  | receive connId dataLen =>
    refine .pure (nothing _ ?_)
    rw [tcpReceive]
    cases found : t.getConn connId with
    | none => exact ⟨.inl rfl, rfl⟩
    | some k => exact ⟨.inr ⟨k, _, .read found, rfl⟩, rfl⟩

inductive Made : TcpCall → TcpConnection → Prop where
  | active {id : BitVec 16} {remoteAddr : Ipv4Addr} {remotePort localPort : BitVec 16} {random : BitVec 32} (port : BitVec 16) :
    Made (.active id remoteAddr remotePort localPort random)
      { newConn id remoteAddr port remotePort random with state := .synSent, seq := random + 1 }
  | opened {src : Ipv4Addr} {data : Nat → Byte} {dataLen id : BitVec 16} {random : BitVec 32}
    (syn : (arrival src data dataLen).header.flags = tcpSyn) :
    Made (.segment src data dataLen id random) ((arrival src data dataLen).opened id random)

theorem Acts.made {i : Nat} (acts : Acts t call t₁) (free : (t.conns i).claimed = false)
    (claimed : (t₁.conns i).claimed = true) : i < tcpMaxConnections ∧ Made call (t₁.conns i) := by
  rcases acts.conn i with same | change
  · rw [same] at claimed
    cases free.symm.trans claimed
  generalize t₁.conns i = conn at claimed change
  cases change with
  | active chosen place => exact ⟨(of_freeConn place).1, .active _⟩
  | opened unknown opens => exact ⟨(of_freeConn opens.free).1, .opened opens.syn⟩
  | rebound listener entry valid found => cases free.symm.trans claimed
  | terminated found => cases free.symm.trans claimed
  | reset known => cases free.symm.trans (of_resolve known).2.1
  | established takes state syn => cases free.symm.trans (of_resolve takes.known).2.1
  | advanced takes => cases free.symm.trans (of_resolve takes.known).2.1
  | pushed found => cases free.symm.trans claimed
  | read found => cases free.symm.trans claimed

theorem TcpCall.made_of_run {t' : Tcp} {emitted : Emitted} {i : Nat} (free : (t.conns i).claimed = false)
    (ret : call.run t = .ok (t', emitted)) (claimed : (t'.conns i).claimed = true) :
    i < tcpMaxConnections ∧ ∃ (t₁ : Tcp) (flush : Bool), Made call (t₁.conns i) ∧ t₁.Output flush t' emitted := by
  obtain ⟨t₁, flush, acts, output⟩ := run_ensures t call _ ret
  have claimed : (t₁.conns i).claimed = true := by
    obtain ⟨tail, seq, now⟩ := output.conn i
    rw [now] at claimed
    exact claimed
  obtain ⟨inside, made⟩ := acts.made free claimed
  exact ⟨inside, t₁, flush, made, output⟩

end Xos.Net
