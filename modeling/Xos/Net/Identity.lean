import Xos.Lib.Pool
import Xos.Net.TcpMachine

/-!
# What connections are found by

A connection is found by its id or by its ends. The ids come from the caller or from `rand16`, and ports that are not
asked for come from a counter.
-/
namespace Xos.Net

open Lib Relation Function List Outcome Prod

def TcpConnection.ends (conn : TcpConnection) : BitVec 16 × Ipv4Addr × BitVec 16 := (conn.localPort, conn.remoteIp, conn.remotePort)

namespace Tcp

def Claimed (t : Tcp) (i : Nat) : Prop := i < tcpMaxConnections ∧ (t.conns i).claimed = true

/-- Ids and ends tell the connections apart, and both ways of looking for a connection find it. -/
structure Distinct (t : Tcp) : Prop where
  nonzero : ∀ i, t.Claimed i → (t.conns i).id ≠ 0
  ids : ∀ i j, t.Claimed i → t.Claimed j → (t.conns i).id = (t.conns j).id → i = j
  ends : ∀ i j, t.Claimed i → t.Claimed j → (t.conns i).ends = (t.conns j).ends → i = j
  found : ∀ i, t.Claimed i → t.getConn ((t.conns i).id.setWidth 32) = some i
  resolved : ∀ i, t.Claimed i → t.resolveConn 0 (t.conns i).remoteIp (t.conns i).localPort (t.conns i).remotePort = some i

def Unused (t : Tcp) (id : BitVec 16) : Prop := id ≠ 0 ∧ ∀ i, t.Claimed i → (t.conns i).id ≠ id

/-- The ids that come in are unused, the one from `rand16` where a connection is opened, and a port from the counter
makes no ends that there are. -/
def Names (t : Tcp) : TcpCall → Prop
  | .active id remoteAddr remotePort localPort _ => t.Unused id ∧
    (localPort = 0 → ∀ i, t.Claimed i → (t.conns i).ends ≠ (t.getEphemeralPort.1, remoteAddr, remotePort))
  | .accept newId _ => t.Unused newId
  | .segment src data dataLen id _ => t.resolve (arrival src data dataLen) = none →
    (∃ l k, t.Opens (arrival src data dataLen) l k) → t.Unused id
  | .passive _ _ => True
  | _ => False

/-- A call of `tcp_active`, `tcp_passive` or `tcp_accept`, or a segment, with such ids. -/
def NamingStep (t t' : Tcp) : Prop := ∃ call emitted, t.Names call ∧ call.run t = .ok (t', emitted)

end Tcp

def TcpConnection.identity (conn : TcpConnection) : Bool × BitVec 16 × Ipv4Addr × BitVec 16 × Ipv4Addr × BitVec 16 :=
  (conn.claimed, conn.id, conn.localIp, conn.ends)

/-- The invariant. A connection that is not claimed has no id. -/
structure Identified (conns : Nat → TcpConnection) : Prop where
  named : ∀ i < tcpMaxConnections, (conns i).claimed = true → (conns i).id ≠ 0 ∧ (conns i).localIp = 0
  apart : ∀ i < tcpMaxConnections, ∀ j < tcpMaxConnections, i ≠ j → (conns i).claimed = true → (conns j).claimed = true →
    (conns i).id ≠ (conns j).id ∧ (conns i).ends ≠ (conns j).ends
  spare : ∀ i < tcpMaxConnections, (conns i).claimed = false → (conns i).id = 0

section Identified

variable {t : Tcp} {conns conns' : Nat → TcpConnection} {k : Nat} {conn : TcpConnection}

section

variable (identified : Identified conns)
include identified

theorem Identified.congr (same : ∀ i, (conns' i).identity = (conns i).identity) : Identified conns' := by
  have fields (i : Nat) : (conns' i).claimed = (conns i).claimed ∧ (conns' i).id = (conns i).id ∧
      (conns' i).localIp = (conns i).localIp ∧ (conns' i).ends = (conns i).ends := by
    obtain ⟨claimed, rest⟩ := mk.inj (same i)
    obtain ⟨id, rest⟩ := mk.inj rest
    obtain ⟨localIp, ends⟩ := mk.inj rest
    exact ⟨claimed, id, localIp, ends⟩
  constructor
  · simpa only [fields] using identified.named
  · simpa only [fields] using identified.apart
  · simpa only [fields] using identified.spare

theorem Identified.set (spare : conn.claimed = false → conn.id = 0) (named : conn.claimed = true → conn.id ≠ 0 ∧ conn.localIp = 0)
    (apart : conn.claimed = true → ∀ i < tcpMaxConnections, i ≠ k → (conns i).claimed = true →
      (conns i).id ≠ conn.id ∧ (conns i).ends ≠ conn.ends) : Identified (update conns k conn) := by
  constructor
  · intro i inside
    by_cases here : i = k
    · rw [here, update_self]
      exact named
    · rw [update_of_ne here]
      exact identified.named i inside
  · intro i inside j below other
    by_cases here : i = k
    · have there : j ≠ k := fun same => other (here.trans same.symm)
      rw [here, update_self, update_of_ne there]
      intro claimed used
      obtain ⟨ids, ends⟩ := apart claimed j below there used
      exact ⟨ids.symm, ends.symm⟩
    · rw [update_of_ne here]
      by_cases there : j = k
      · rw [there, update_self]
        intro used claimed
        exact apart claimed i inside here used
      · rw [update_of_ne there]
        exact identified.apart i inside j below other
  · intro i inside
    by_cases here : i = k
    · rw [here, update_self]
      exact spare
    · rw [update_of_ne here]
      exact identified.spare i inside

theorem Identified.same (same : conn.identity = (conns k).identity) : Identified (update conns k conn) := by
  refine identified.congr fun i => ?_
  by_cases here : i = k
  · rw [here, update_self, same]
  · rw [update_of_ne here]

theorem Identified.close (closed : conn.claimed = false ∧ conn.id = 0) : Identified (update conns k conn) := by
  refine identified.set (fun _ => closed.2) (fun claimed => ?_) fun claimed => ?_
  all_goals cases closed.1.symm.trans claimed

end

theorem TcpConnection.advance_identity (conn : TcpConnection) (flags : Byte) (payload : List Byte) :
    (conn.advance flags payload).identity = conn.identity ∨
      (conn.advance flags payload).claimed = false ∧ (conn.advance flags payload).id = 0 := by
  rcases conn.advance_cases flags payload with ⟨state, seq, same, -⟩ | ⟨-, -, same⟩
  · left
    rw [same]
    split <;> rfl
  · right
    rw [same]
    exact ⟨rfl, rfl⟩

section

variable (identified : Identified t.conns)
include identified

theorem Identified.ends_of_unknown {a : Arrival} (unknown : t.resolve a = none) :
    ∀ i < tcpMaxConnections, (t.conns i).claimed = true →
      (t.conns i).ends ≠ (htons a.header.dstPort, a.src, htons a.header.srcPort) := by
  intro i inside claimed same
  have missed := find?_eq_none.mp unknown i (mem_range.mpr inside)
  obtain ⟨localPort, rest⟩ := mk.inj same
  obtain ⟨remoteIp, remotePort⟩ := mk.inj rest
  simp [claimed, (identified.named i inside claimed).2, localPort, remoteIp, remotePort] at missed

theorem Identified.ends_of_asked {localPort remotePort : BitVec 16} {remoteAddr : Ipv4Addr}
    (unused : t.isPortUsed localPort = false) :
    ∀ i < tcpMaxConnections, (t.conns i).claimed = true → (t.conns i).ends ≠ (localPort, remoteAddr, remotePort) := by
  intro i inside claimed same
  have id := (identified.named i inside claimed).1
  have used : t.isPortUsed localPort = true := by
    rw [Tcp.isPortUsed, Bool.or_eq_true]
    refine .inr (any_eq_true.mpr ⟨i, mem_range.mpr inside, ?_⟩)
    exact decide_eq_true ⟨id, (mk.inj same).1⟩
  rw [unused] at used
  cases used

theorem Identified.change {call : TcpCall} (change : Change t call k conn) (names : t.Names call) :
    Identified (update t.conns k conn) := by
  cases change with
  | active chosen free =>
    obtain ⟨unused, port⟩ := names
    refine identified.set (fun unclaimed => by cases unclaimed) (fun _ => ⟨unused.1, rfl⟩) fun _ i inside other claimed => ?_
    refine ⟨unused.2 i ⟨inside, claimed⟩, ?_⟩
    -- a port that was asked for was looked up among all ids, one from the counter was not
    rw [Tcp.Chooses] at chosen
    split at chosen
    next any =>
      subst chosen
      exact port any i ⟨inside, claimed⟩
    next =>
      obtain ⟨rfl, asked⟩ := chosen
      exact identified.ends_of_asked asked i inside claimed
  | rebound listener entry valid found =>
    obtain ⟨inside, same⟩ := Tcp.of_getConn found
    -- an entry of a backlog that is not 0 is the id of a claimed connection
    have claimed : (t.conns k).claimed = true := by
      by_contra unclaimed
      rw [identified.spare k inside (by simpa using unclaimed)] at same
      exact valid (by bv_omega)
    refine identified.set (fun unclaimed => ?_) (fun _ => ⟨names.1, (identified.named k inside claimed).2⟩) fun _ i below other used => ?_
    · cases claimed.symm.trans unclaimed
    · exact ⟨names.2 i ⟨below, used⟩, (identified.apart i below k inside other used claimed).2⟩
  | terminated found => exact absurd names id
  | opened unknown opens =>
    have unused := names unknown ⟨_, _, opens⟩
    refine identified.set (fun unclaimed => by cases unclaimed) (fun _ => ⟨unused.1, rfl⟩) fun _ i inside other claimed => ?_
    exact ⟨unused.2 i ⟨inside, claimed⟩, identified.ends_of_unknown unknown i inside claimed⟩
  | reset known => exact identified.close ⟨rfl, rfl⟩
  | established takes state syn => exact identified.same rfl
  | advanced takes =>
    rcases TcpConnection.advance_identity _ _ _ with same | closed
    · exact identified.same same
    · exact identified.close closed
  | pushed found => exact absurd names id
  | read found => exact absurd names id

theorem Identified.step {t' : Tcp} (step : t.NamingStep t') : Identified t'.conns := by
  obtain ⟨call, emitted, names, ret⟩ := step
  obtain ⟨t₁, flush, acts, output⟩ := TcpCall.run_ensures t call _ ret
  -- what is sent afterwards does not touch ids and ends
  have before : Identified t₁.conns := by
    rcases acts.conns with same | ⟨k, conn, change, set⟩
    · rw [same]
      exact identified
    · rw [set]
      exact identified.change change names
  refine before.congr fun i => ?_
  obtain ⟨tail, seq, now⟩ := output.conn i
  rw [now]
  rfl

/-- With the invariant, both ways of looking for a connection find it. -/
theorem Identified.distinct : t.Distinct := by
  have ids (i j : Nat) (here : t.Claimed i) (there : t.Claimed j) (same : (t.conns i).id = (t.conns j).id) : i = j := by
    by_contra other
    exact (identified.apart i here.1 j there.1 other here.2 there.2).1 same
  have ends (i j : Nat) (here : t.Claimed i) (there : t.Claimed j) (same : (t.conns i).ends = (t.conns j).ends) : i = j := by
    by_contra other
    exact (identified.apart i here.1 j there.1 other here.2 there.2).2 same
  refine ⟨fun i claimed => (identified.named i claimed.1 claimed.2).1, ids, ends, fun i claimed => ?_, fun i claimed => ?_⟩
  · obtain ⟨j, found⟩ : ∃ j, t.getConn ((t.conns i).id.setWidth 32) = some j := by
      rw [← Option.isSome_iff_exists, Tcp.getConn, find?_isSome]
      exact ⟨i, mem_range.mpr claimed.1, decide_eq_true rfl⟩
    obtain ⟨inside, same⟩ := Tcp.of_getConn found
    have equal : (t.conns j).id = (t.conns i).id := by bv_omega
    have used : (t.conns j).claimed = true := by
      by_contra unclaimed
      rw [identified.spare j inside (by simpa using unclaimed)] at equal
      exact (identified.named i claimed.1 claimed.2).1 equal.symm
    rw [found, ids j i ⟨inside, used⟩ claimed equal]
  · obtain ⟨j, found⟩ : ∃ j, t.resolveConn 0 (t.conns i).remoteIp (t.conns i).localPort (t.conns i).remotePort = some j := by
      rw [← Option.isSome_iff_exists, Tcp.resolveConn, find?_isSome]
      exact ⟨i, mem_range.mpr claimed.1, decide_eq_true ⟨claimed.2, (identified.named i claimed.1 claimed.2).2, rfl, rfl, rfl⟩⟩
    have same := find?_some found
    rw [decide_eq_true_eq] at same
    obtain ⟨used, -, remoteIp, localPort, remotePort⟩ := same
    have inside : j < tcpMaxConnections := mem_range.mp (mem_of_find?_eq_some found)
    have equal : (t.conns j).ends = (t.conns i).ends := by
      rw [TcpConnection.ends, TcpConnection.ends, remoteIp, localPort, remotePort]
    rw [found, ends j i ⟨inside, used⟩ claimed equal]

end

end Identified

/-- In a run from tables without connections, in which the ids and ports that come in are new, ids and ends are distinct. -/
theorem connections_distinct (t₀ t : Tcp) (empty : ∀ i, (t₀.conns i).claimed = false ∧ (t₀.conns i).id = 0)
    (run : ReflTransGen Tcp.NamingStep t₀ t) : t.Distinct := by
  have unclaimed {i : Nat} (claimed : (t₀.conns i).claimed = true) : False := by
    cases (empty i).1.symm.trans claimed
  have start : Identified t₀.conns :=
    ⟨fun _ _ claimed => (unclaimed claimed).elim, fun _ _ _ _ _ claimed => (unclaimed claimed).elim, fun i _ _ => (empty i).2⟩
  have identified := invariant_of_run (fun t : Tcp => Identified t.conns) (fun _ _ identified step => identified.step step) run start
  exact identified.distinct

def emptyTables : Tcp where
  nics := fun _ => ⟨0, 0, none⟩
  routes := fun _ => none
  ipId := 0
  conns := fun _ => { Tcp.newConn 0 0 0 0 0 with claimed := false }
  listeners := fun _ => ⟨0, 0, ⟨fun _ => 0, 0, 0⟩⟩
  port := 49152

def listening : Tcp := (tcpPassive emptyTables 1 80).2

def segmentTo80 (srcPort : BitVec 16) (seq ack : BitVec 32) (flags : Byte) (payload : List Byte) : Nat → Byte :=
  let header : TcpHeader := ⟨htons srcPort, htons 80, htonl seq, htonl ack, 0x50, flags, 0, 0, 0⟩
  fun i => (header.bytes ++ payload).getD i 0

/-- SYN from port 1000 of 10.0.2.2, with the number that `rand16` returns. -/
def synFrom1000 (id : BitVec 16) : TcpCall := .segment (ipv4 10 0 2 2) (segmentTo80 1000 0 0 tcpSyn []) 20 id 7

/-- The segment that follows SYN, with an acknowledgement number; the answer to SYN has the number 7. -/
def ackFrom1000 (ack : BitVec 32) (payload : List Byte) : TcpCall :=
  .segment (ipv4 10 0 2 2) (segmentTo80 1000 1 ack tcpAck payload) (BitVec.ofNat 16 (20 + payload.length)) 0 0

def Tcp.after (t : Tcp) (call : TcpCall) : Tcp × Emitted := (call.run t).toOption.getD (t, [])

theorem Tcp.run_after {t : Tcp} {call : TcpCall} (returns : (call.run t).isOk = true) :
    call.run t = .ok ((t.after call).1, (t.after call).2) := by
  obtain ⟨res, ran⟩ := isOk_iff.mp returns
  rw [after, ran]
  rfl

def firstConnection (id : BitVec 16) : Outcome (Bool × BitVec 16) := do
  let (t, _) ← (synFrom1000 id).run listening
  pure ((t.conns 0).claimed, (t.conns 0).id)

theorem run_of_firstConnection {id : BitVec 16} {claimed : Bool} {now : BitVec 16} (seen : firstConnection id = .ok (claimed, now)) :
    ∃ t emitted, (synFrom1000 id).run listening = .ok (t, emitted) ∧ (t.conns 0).claimed = claimed ∧ (t.conns 0).id = now := by
  obtain ⟨⟨t, emitted⟩, ret, same⟩ := of_bind seen
  obtain ⟨first, second⟩ := ok_inj same
  exact ⟨t, emitted, ret, first, second⟩

/-- When `rand16` returns 0, the new connection has the id of those that are not used. -/
theorem zero_id_drawn : ∃ t emitted, (synFrom1000 0).run listening = .ok (t, emitted) ∧
    t.Claimed 0 ∧ (t.conns 0).id = 0 ∧ ¬t.Distinct := by
  have seen : firstConnection 0 = .ok (true, 0) := by decide +kernel
  obtain ⟨t, emitted, returned, claimed, zero⟩ := run_of_firstConnection seen
  have first : t.Claimed 0 := ⟨by decide, claimed⟩
  exact ⟨t, emitted, returned, first, zero, fun distinct => distinct.nonzero 0 first zero⟩

/-- When it returns 9, the connection is found by that. -/
theorem nonzero_id_drawn : ∃ t, ReflTransGen Tcp.NamingStep emptyTables t ∧ t.Claimed 0 ∧ t.Distinct := by
  have seen : firstConnection 9 = .ok (true, 9) := by decide +kernel
  obtain ⟨t, emitted, returned, claimed, -⟩ := run_of_firstConnection seen
  have listens : Tcp.NamingStep emptyTables listening := ⟨.passive 1 80, [], trivial, rfl⟩
  have opens : Tcp.NamingStep listening t := by
    refine ⟨synFrom1000 9, emitted, fun _ _ => ⟨by decide, fun i claimed => ?_⟩, returned⟩
    have unclaimed : (listening.conns i).claimed = false := rfl
    cases unclaimed.symm.trans claimed.2
  have run : ReflTransGen Tcp.NamingStep emptyTables t := (ReflTransGen.single listens).tail opens
  exact ⟨t, run, ⟨by decide, claimed⟩, connections_distinct emptyTables t (fun _ => ⟨rfl, rfl⟩) run⟩

/-- A state is kept, or the handshake ends, or the connection is not open any more. -/
def TcpState.Forward (before after : TcpState) : Prop :=
  after = before ∨ (after.Open → after = .established ∧ (before = .synSent ∨ before = .synReceived))

theorem TcpState.Forward.trans {a b c : TcpState} (first : a.Forward b) (second : b.Forward c) : a.Forward c := by
  rcases second with rfl | second
  · exact first
  refine .inr fun isOpen => ?_
  obtain ⟨rfl, early⟩ := second isOpen
  rcases first with rfl | first
  · exact ⟨rfl, early⟩
  · have := (first (early.imp_right .inl)).1
    rcases early with rfl | rfl <;> cases this

/-- The part of a connection that is fixed for as long as its place in the table is claimed. -/
def TcpConnection.Continues (conn conn' : TcpConnection) : Prop :=
  conn'.ends = conn.ends ∧ conn'.initialSeq = conn.initialSeq ∧ conn.state.Forward conn'.state

/-- A call during which the place `i` stays claimed. -/
def Tcp.HoldingStep (i : Nat) (t t' : Tcp) : Prop :=
  (t.conns i).claimed = true ∧ (t'.conns i).claimed = true ∧ ∃ (call : TcpCall) (emitted : Emitted), call.run t = .ok (t', emitted)

theorem Change.continues {t : Tcp} {call : TcpCall} {i : Nat} {conn : TcpConnection} (change : Change t call i conn)
    (before : (t.conns i).claimed = true) (after : conn.claimed = true) : (t.conns i).Continues conn := by
  cases change with
  | active _ free => cases before.symm.trans (Tcp.of_freeConn free).2
  | opened _ opens => cases before.symm.trans (Tcp.of_freeConn opens.free).2
  | rebound | pushed | read => exact ⟨rfl, rfl, .inl rfl⟩
  | terminated => exact ⟨rfl, rfl, .inr fun isOpen => by simp [TcpState.Open] at isOpen⟩
  | reset => cases after
  | established takes state syn => exact ⟨rfl, rfl, .inr fun _ => ⟨rfl, state⟩⟩
  | advanced takes =>
    rcases TcpConnection.advance_cases _ _ _ with ⟨state, seq, same, moved⟩ | ⟨-, -, same⟩
    · rw [same]
      refine ⟨by split <;> rfl, by split <;> rfl, ?_⟩
      exact moved.imp And.left fun ending isOpen => absurd isOpen ending.1.not_open
    · rw [same] at after
      cases after

/-- For as long as its place is claimed, a connection keeps its ends and its first sequence number whatever is called
and received. Its handshake is never repeated: ESTABLISHED is entered only out of the handshake, and once the connection
is not open it is never open again. -/
theorem connection_moves_forward (i : Nat) (t t' : Tcp) (run : ReflTransGen (Tcp.HoldingStep i) t t') :
    (t.conns i).Continues (t'.conns i) := by
  induction run with
  | refl => exact ⟨rfl, rfl, .inl rfl⟩
  | @tail t t' run last ih =>
    obtain ⟨before, after, call, emitted, ret⟩ := last
    obtain ⟨t₁, flush, acts, output⟩ := TcpCall.run_ensures t call _ ret
    -- what is sent behind the call moves only the tail and the sequence number
    obtain ⟨tail, seq, now⟩ := output.conn i
    rw [now] at after ⊢
    have step : (t.conns i).Continues (t₁.conns i) := by
      rcases acts.conn i with same | change
      · rw [same]
        exact ⟨rfl, rfl, .inl rfl⟩
      · exact change.continues before after
    exact ⟨step.1.trans ih.1, step.2.1.trans ih.2.1, ih.2.2.trans step.2.2⟩

/-- A connection that waits for the answer to its SYN. -/
def connecting : Tcp := emptyTables.setConn 0 { Tcp.newConn 5 0 49152 80 7 with state := .synSent }

theorem connecting_terminated : ∃ t', Tcp.HoldingStep 0 connecting t' ∧ (t'.conns 0).state = .finWait1 ∧
    (connecting.conns 0).Continues (t'.conns 0) := by
  have step : Tcp.HoldingStep 0 connecting (connecting.after (.terminate 5)).1 :=
    ⟨by decide +kernel, by decide +kernel, _, _, Tcp.run_after (by decide +kernel)⟩
  exact ⟨_, step, by decide +kernel, connection_moves_forward 0 _ _ (.single step)⟩

end Xos.Net
