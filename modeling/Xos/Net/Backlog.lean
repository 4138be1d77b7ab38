import Xos.Lib.Fifo
import Xos.Net.Identity

/-!
# The backlog of a listener

The backlog holds three ids, and whether there is room was asked when SYN came in. `pending` is what it stands for: the
connections that were established and have not been taken.
-/
namespace Xos.Net

open Lib Relation Function List Option

variable {id : BitVec 16}

namespace Backlog

def entries (q : Backlog) : List (BitVec 16) := RingBuf.held tcpBacklogSize q

def Valid (q : Backlog) : Prop := RingBuf.Valid tcpBacklogSize q

variable {q : Backlog}

theorem Valid.write (valid : q.Valid) (item : BitVec 16) : (q.write item).Valid :=
  (RingBuf.Valid.write valid item).1

theorem Valid.entries_write (valid : q.Valid) (room : q.full = false) (item : BitVec 16) :
    (q.write item).entries = q.entries ++ [item] := by
  have apart : (q.head + 1) % tcpBacklogSize ≠ q.tail := by simpa [full] using room
  exact (RingBuf.Valid.write valid item).2.trans (if_neg apart)

theorem Valid.read_none (valid : q.Valid) (empty : q.entries = []) : q.read = none :=
  RingBuf.Valid.next_nil valid empty

theorem Valid.read_some (valid : q.Valid) {rest : List (BitVec 16)} (first : q.entries = id :: rest) :
    ∃ q', q.read = some (id, q') ∧ q'.Valid ∧ q'.entries = rest :=
  RingBuf.Valid.next_cons valid first

end Backlog

/-- The tables, and for each listener the connections that were established for it and that no `tcp_accept` has taken. -/
structure Accepting where
  tcp : Tcp
  pending : Nat → List Nat

def Tcp.Enters (t t' : Tcp) (i : Nat) : Prop := (t.conns i).state = .synReceived ∧ (t'.conns i).state = .established

instance (t t' : Tcp) (i : Nat) : Decidable (t.Enters t' i) := inferInstanceAs (Decidable (_ ∧ _))

def Tcp.Listed (t : Tcp) (id : BitVec 16) : Prop := ∃ l < tcpMaxListeners, id ∈ (t.listeners l).backlog.entries

namespace Accepting

def entered (s : Accepting) (t' : Tcp) (l : Nat) : List Nat :=
  s.pending l ++ (List.range tcpMaxConnections).filter fun i =>
    decide (s.tcp.Enters t' i ∧ s.tcp.resolvePassive (s.tcp.conns i).localPort = some l)

/-- What is pending after `tcp_accept`. -/
def taken (s : Accepting) (id : BitVec 16) (l : Nat) : List Nat :=
  if s.tcp.getPassive id = some l then (s.pending l).tail else s.pending l

/-- A connection that is established has an id of its own and finds room in the backlog, an id that is drawn is
in no backlog, and a connection in a backlog is not closed. -/
structure Admits (t : Tcp) (a : Arrival) (id : BitVec 16) : Prop where
  establishes : ∀ i l, t.Takes a i → (t.conns i).state = .synReceived → a.header.flags &&& tcpAck ≠ 0 →
    t.resolvePassive (htons a.header.dstPort) = some l →
    (t.listeners l).backlog.full = false ∧ (t.conns i).id ≠ 0 ∧ ∀ j < tcpMaxConnections, j ≠ i → (t.conns j).id ≠ (t.conns i).id
  draws : t.resolve a = none → ∀ l k, t.Opens a l k → ¬t.Listed id
  resets : ∀ i, t.resolve a = some i → a.header.flags &&& tcpRst ≠ 0 → ¬t.Listed (t.conns i).id
  closes : ∀ i, t.Takes a i → a.header.flags &&& tcpAck ≠ 0 → (t.conns i).state.Closing → ¬t.Listed (t.conns i).id

/-- A segment that meets the condition, or `tcp_accept` with an id that is in no backlog. -/
inductive Step (s : Accepting) : Accepting → Prop where
  | segment {src : Ipv4Addr} {data : Nat → Byte} {dataLen id : BitVec 16} {random : BitVec 32} {t' : Tcp} {emitted : Emitted}
    (admits : 20 ≤ dataLen.toNat → Admits s.tcp (arrival src data dataLen) id)
    (returned : (TcpCall.segment src data dataLen id random).run s.tcp = .ok (t', emitted)) : Step s ⟨t', s.entered t'⟩
  | accept {newId id : BitVec 16} (unlisted : ¬s.tcp.Listed newId) : Step s ⟨(tcpAccept s.tcp newId id).2, s.taken id⟩

structure Kept (s : Accepting) : Prop where
  listed : ∀ l < tcpMaxListeners, (s.tcp.listeners l).backlog.entries = (s.pending l).map fun i => (s.tcp.conns i).id
  once : ∀ l, (s.pending l).Nodup
  apart : ∀ l l' i, i ∈ s.pending l → i ∈ s.pending l' → l = l'
  found : ∀ l, ∀ i ∈ s.pending l, (s.tcp.conns i).id ≠ 0 ∧ s.tcp.getConn ((s.tcp.conns i).id.setWidth 32) = some i

/-- `tcp_accept` takes the connection that was entered first, and fails when there is none. -/
def Accepts (s : Accepting) (newId id : BitVec 16) : Prop :=
  ∀ l, s.tcp.getPassive id = some l →
    match s.pending l with
    | [] => (tcpAccept s.tcp newId id).1 = false ∧ (tcpAccept s.tcp newId id).2.conns = s.tcp.conns
    | i :: _ => (tcpAccept s.tcp newId id).1 = true ∧
      (tcpAccept s.tcp newId id).2.conns = update s.tcp.conns i { s.tcp.conns i with id := newId }

/-- A connection in a backlog: nothing else has its id. -/
structure Live (t : Tcp) (i : Nat) : Prop where
  inside : i < tcpMaxConnections
  claimed : (t.conns i).claimed = true
  entered : (t.conns i).state ≠ .synReceived
  nonzero : (t.conns i).id ≠ 0
  only : ∀ j < tcpMaxConnections, j ≠ i → (t.conns j).id ≠ (t.conns i).id

structure Inv (s : Accepting) : Prop where
  valid : ∀ l < tcpMaxListeners, (s.tcp.listeners l).backlog.Valid
  listed : ∀ l < tcpMaxListeners, (s.tcp.listeners l).backlog.entries = (s.pending l).map fun i => (s.tcp.conns i).id
  beyond : ∀ l, tcpMaxListeners ≤ l → s.pending l = []
  once : ∀ l, (s.pending l).Nodup
  apart : ∀ l l' i, i ∈ s.pending l → i ∈ s.pending l' → l = l'
  live : ∀ l, ∀ i ∈ s.pending l, Live s.tcp i

variable {s : Accepting}

variable {i : Nat}

theorem Live.getConn {t : Tcp} (live : Live t i) : t.getConn ((t.conns i).id.setWidth 32) = some i := by
  obtain ⟨j, found⟩ : ∃ j, t.getConn ((t.conns i).id.setWidth 32) = some j := by
    rw [← isSome_iff_exists, Tcp.getConn, find?_isSome]
    exact ⟨i, mem_range.mpr live.inside, decide_eq_true rfl⟩
  obtain ⟨inside, same⟩ := Tcp.of_getConn found
  have equal : (t.conns j).id = (t.conns i).id := by bv_omega
  by_cases here : j = i
  · rw [found, here]
  · exact absurd equal (live.only j inside here)

theorem Inv.kept (inv : s.Inv) : s.Kept :=
  ⟨inv.listed, inv.once, inv.apart, fun l i inside => ⟨(inv.live l i inside).nonzero, (inv.live l i inside).getConn⟩⟩

variable {l : Nat} {t' : Tcp} {conn : TcpConnection}

theorem Inv.listener_lt (inv : s.Inv) (inside : i ∈ s.pending l) : l < tcpMaxListeners := by
  by_contra beyond
  rw [inv.beyond l (Nat.not_lt.mp beyond)] at inside
  cases inside

theorem Inv.listed_id (inv : s.Inv) (inside : i ∈ s.pending l) : s.tcp.Listed (s.tcp.conns i).id := by
  have bound := inv.listener_lt inside
  refine ⟨l, bound, ?_⟩
  rw [inv.listed l bound]
  exact mem_map_of_mem inside

def SetTo (t t' : Tcp) (k : Nat) (conn : TcpConnection) : Prop :=
  ∀ j, ∃ tail seq, t'.conns j = { update t.conns k conn j with sendTail := tail, seq := seq }

variable {emitted : Emitted}

section SetTo

variable {t t' : Tcp} {k i : Nat} {conn : TcpConnection}

theorem SetTo.of_output {t₁ : Tcp} {flush : Bool} (conns : t₁.conns = update t.conns k conn)
    (output : t₁.Output flush t' emitted) : SetTo t t' k conn := by
  intro j
  rw [← conns]
  exact output.conn j

section

variable (set : SetTo t t' k conn)
include set

theorem SetTo.here : (t'.conns k).claimed = conn.claimed ∧ (t'.conns k).state = conn.state ∧ (t'.conns k).id = conn.id := by
  obtain ⟨tail, seq, now⟩ := set k
  rw [now, update_self]
  exact ⟨rfl, rfl, rfl⟩

theorem SetTo.there (other : i ≠ k) :
    (t'.conns i).claimed = (t.conns i).claimed ∧ (t'.conns i).state = (t.conns i).state ∧ (t'.conns i).id = (t.conns i).id := by
  obtain ⟨tail, seq, now⟩ := set i
  rw [now, update_of_ne other]
  exact ⟨rfl, rfl, rfl⟩

theorem SetTo.live (live : Live t i) (own : k = i → conn.claimed = true ∧ conn.state ≠ .synReceived ∧ conn.id = (t.conns i).id)
    (other : k ≠ i → conn.id ≠ (t.conns i).id) : Live t' i ∧ (t'.conns i).id = (t.conns i).id := by
  by_cases here : k = i
  · -- the connection itself was set
    obtain ⟨claimed, state, id⟩ := own here
    subst here
    obtain ⟨claimed', state', id'⟩ := set.here
    refine ⟨⟨live.inside, claimed'.trans claimed, state'.trans_ne state, ?_, fun j inside differs => ?_⟩, id'.trans id⟩
    · rw [id', id]
      exact live.nonzero
    · rw [id', id, (set.there differs).2.2]
      exact live.only j inside differs
  · -- another one was set, and may not have taken its id
    obtain ⟨claimed', state', id'⟩ := set.there (Ne.symm here)
    refine ⟨⟨live.inside, claimed'.trans live.claimed, state'.trans_ne live.entered, id'.trans_ne live.nonzero, fun j inside differs => ?_⟩, id'⟩
    rw [id']
    by_cases same : j = k
    · rw [same, set.here.2.2]
      exact other here
    · rw [(set.there same).2.2]
      exact live.only j inside differs

theorem SetTo.not_enters (own : (t.conns k).state = .synReceived → conn.state ≠ .established) (j : Nat) : ¬t.Enters t' j := by
  rintro ⟨before, after⟩
  by_cases here : j = k
  · subst here
    rw [set.here.2.1] at after
    exact own before after
  · rw [(set.there here).2.1, before] at after
    cases after

end

end SetTo

theorem Inv.unentered (inv : s.Inv) (listeners : t'.listeners = s.tcp.listeners)
    (live : ∀ l, ∀ i ∈ s.pending l, Live t' i ∧ (t'.conns i).id = (s.tcp.conns i).id) (none : ∀ i, ¬s.tcp.Enters t' i) :
    Inv ⟨t', s.entered t'⟩ := by
  have same : s.entered t' = s.pending := by
    funext l
    rw [entered, filter_eq_nil_iff.mpr, append_nil]
    intro i _
    simp [none i]
  rw [same]
  refine ⟨?_, fun l inside => ?_, inv.beyond, inv.once, inv.apart, fun l i inside => (live l i inside).1⟩
  · rw [listeners]
    exact inv.valid
  · rw [listeners, inv.listed l inside]
    apply map_congr_left
    intro i mem
    exact (live l i mem).2.symm

variable {l' : Nat}

/-! One connection becomes established, and it belongs to a listener. -/
section Entered

variable {t' : Tcp} {i l : Nat} (enters : ∀ j, s.tcp.Enters t' j ↔ j = i)
  (owner : s.tcp.resolvePassive (s.tcp.conns i).localPort = some l)

include enters owner

theorem entered_self (inside : i < tcpMaxConnections) : s.entered t' l = s.pending l ++ [i] := by
  have single : ∀ i < tcpMaxConnections, (List.range tcpMaxConnections).filter (fun j => decide (j = i)) = [i] := by decide
  rw [entered, ← single i inside]
  congr 1
  apply filter_congr
  intro j _
  rw [decide_eq_decide, enters]
  exact ⟨fun both => both.1, fun here => ⟨here, by rw [here, owner]⟩⟩

theorem entered_of_ne (differs : l' ≠ l) : s.entered t' l' = s.pending l' := by
  rw [entered, filter_eq_nil_iff.mpr, append_nil]
  intro j _
  rw [decide_eq_true_eq, enters]
  rintro ⟨rfl, found⟩
  rw [owner] at found
  exact differs (some.inj found).symm

theorem mem_entered (inside : i < tcpMaxConnections) (l' j : Nat) : j ∈ s.entered t' l' ↔ j ∈ s.pending l' ∨ l' = l ∧ j = i := by
  by_cases here : l' = l
  · rw [here, entered_self enters owner inside, mem_append, mem_singleton]
    simp
  · rw [entered_of_ne enters owner here]
    simp [here]

end Entered

section

variable (inv : s.Inv)
include inv

theorem Inv.exchange {pending : Nat → List Nat} (bound : l < tcpMaxListeners) {backlog : Backlog} (valid : backlog.Valid)
    (listeners : t'.listeners = update s.tcp.listeners l { s.tcp.listeners l with backlog := backlog })
    (others : ∀ l', l' ≠ l → pending l' = s.pending l') (listed : backlog.entries = (pending l).map fun i => (t'.conns i).id)
    (once : (pending l).Nodup) (apart : ∀ l', l' ≠ l → ∀ i ∈ pending l, i ∉ s.pending l')
    (live : ∀ l', ∀ i ∈ pending l', Live t' i) (ids : ∀ l', ∀ i ∈ s.pending l', i ∈ pending l' → (t'.conns i).id = (s.tcp.conns i).id) :
    Inv ⟨t', pending⟩ := by
  refine ⟨fun l' below => ?_, fun l' below => ?_, fun l' beyond => ?_, fun l' => ?_, fun l' l'' i here there => ?_, live⟩
  · rw [listeners]
    by_cases this : l' = l
    · rw [this, update_self]
      exact valid
    · rw [update_of_ne this]
      exact inv.valid l' below
  · dsimp only
    rw [listeners]
    by_cases this : l' = l
    · rw [this, update_self]
      exact listed
    · have old := others l' this
      rw [update_of_ne this, old, inv.listed l' below]
      apply map_congr_left
      intro i mem
      exact (ids l' i mem (old ▸ mem)).symm
  · have differs : l' ≠ l := by omega
    exact (others l' differs).trans (inv.beyond l' beyond)
  · dsimp only
    by_cases this : l' = l
    · rw [this]
      exact once
    · rw [others l' this]
      exact inv.once l'
  · -- two listeners other than `l` have nothing in common, and none has anything in common with `l`
    dsimp only at here there
    by_cases this : l' = l
    · by_cases that : l'' = l
      · exact this.trans that.symm
      · rw [others l'' that] at there
        exact absurd there (apart l'' that i (this ▸ here))
    · rw [others l' this] at here
      by_cases that : l'' = l
      · exact absurd here (apart l' this i (that ▸ there))
      · rw [others l'' that] at there
        exact inv.apart l' l'' i here there

theorem Inv.accepted (set : SetTo s.tcp t' i conn)
    (same : conn.id = (s.tcp.conns i).id ∧ conn.claimed = true ∧ conn.state = .established)
    (received : (s.tcp.conns i).state = .synReceived) (inside : i < tcpMaxConnections)
    (owner : s.tcp.resolvePassive (s.tcp.conns i).localPort = some l) (listeners : t'.listeners = update s.tcp.listeners l
      { s.tcp.listeners l with backlog := (s.tcp.listeners l).backlog.write (s.tcp.conns i).id })
    (room : (s.tcp.listeners l).backlog.full = false) (nonzero : (s.tcp.conns i).id ≠ 0)
    (only : ∀ j < tcpMaxConnections, j ≠ i → (s.tcp.conns j).id ≠ (s.tcp.conns i).id) : Inv ⟨t', s.entered t'⟩ := by
  have bound := mem_range.mp (mem_of_find?_eq_some owner)
  have ids (j : Nat) : (t'.conns j).id = (s.tcp.conns j).id := by
    by_cases here : j = i
    · rw [here, set.here.2.2, same.1]
    · exact (set.there here).2.2
  -- the pending connections are others, since they are not in SYN_RECEIVED
  have new (l' : Nat) : i ∉ s.pending l' := fun old => (inv.live l' i old).entered received
  have enters (j : Nat) : s.tcp.Enters t' j ↔ j = i := by
    constructor
    · rintro ⟨before, after⟩
      by_contra other
      rw [(set.there other).2.1, before] at after
      cases after
    · rintro rfl
      exact ⟨received, set.here.2.1.trans same.2.2⟩
  have joined := entered_self enters owner inside
  have members := mem_entered enters owner inside
  refine inv.exchange bound ((inv.valid l bound).write _) listeners (fun l' => entered_of_ne enters owner) ?listed ?once
    (fun l' differs j mem old => ?apart) (fun l' j mem => ?live) fun _ j _ _ => ids j
  case listed =>
    simp only [ids, joined, map_append]
    rw [← inv.listed l bound]
    exact (inv.valid l bound).entries_write room _
  case once =>
    rw [joined, nodup_append]
    refine ⟨inv.once l, by simp, ?_⟩
    intro j old k last same
    rw [mem_singleton.mp last] at same
    exact new l (same ▸ old)
  case apart =>
    rcases (members l j).mp mem with also | ⟨-, rfl⟩
    · exact differs (inv.apart l' l j old also)
    · exact new l' old
  case live =>
    rcases (members l' j).mp mem with old | ⟨-, rfl⟩
    · have other : i ≠ j := fun here => new l' (here ▸ old)
      refine (set.live (inv.live l' j old) (fun here => absurd here other) fun _ => ?_).1
      rw [same.1]
      exact (inv.live l' j old).only i inside other
    · obtain ⟨claimed, state, -⟩ := set.here
      refine ⟨inside, claimed.trans same.2.1, ?_, ?_, fun k below differs => ?_⟩
      · rw [state, same.2.2]
        decide
      · rw [ids]
        exact nonzero
      · rw [ids, ids]
        exact only k below differs

theorem Inv.set {k : Nat} (listeners : t'.listeners = s.tcp.listeners)
    (set : SetTo s.tcp t' k conn) (idle : (s.tcp.conns k).state = .synReceived → conn.state ≠ .established)
    (own : ∀ l, k ∈ s.pending l → conn.claimed = true ∧ conn.state ≠ .synReceived ∧ conn.id = (s.tcp.conns k).id)
    (others : ∀ l, ∀ i ∈ s.pending l, k ≠ i → conn.id ≠ (s.tcp.conns i).id) : Inv ⟨t', s.entered t'⟩ := by
  refine inv.unentered listeners (fun l i mem => ?_) (set.not_enters idle)
  refine set.live (inv.live l i mem) (fun here => ?_) (others l i mem)
  subst here
  exact own l mem

theorem Inv.closed {k : Nat} (listeners : t'.listeners = s.tcp.listeners)
    (set : SetTo s.tcp t' k conn.close) (unlisted : ¬s.tcp.Listed (s.tcp.conns k).id) : Inv ⟨t', s.entered t'⟩ := by
  refine inv.set listeners set (fun _ => (by decide : TcpState.closed ≠ .established)) (fun l mem => ?_) fun l i mem _ => ?_
  · exact absurd (inv.listed_id mem) unlisted
  · exact (inv.live l i mem).nonzero.symm

theorem Inv.advanced {k : Nat} {a : Arrival} (listeners : t'.listeners = s.tcp.listeners)
    (admits : Admits s.tcp a id) (takes : s.tcp.Takes a k)
    (set : SetTo s.tcp t' k (((s.tcp.conns k).acknowledge a.header a.payloadLen).advance a.header.flags a.payload)) :
    Inv ⟨t', s.entered t'⟩ := by
  obtain ⟨inside, claimed, -⟩ := Tcp.of_resolve takes.known
  have kept : ((s.tcp.conns k).acknowledge a.header a.payloadLen).state = (s.tcp.conns k).state := rfl
  rcases TcpConnection.advance_cases ((s.tcp.conns k).acknowledge a.header a.payloadLen) a.header.flags a.payload with
    ⟨state, seq, same, moved⟩ | ⟨closing, ack, same⟩
  · generalize made : ((s.tcp.conns k).acknowledge a.header a.payloadLen).advance a.header.flags a.payload = conn at set
    obtain ⟨claimed', state', id'⟩ : conn.claimed = (s.tcp.conns k).claimed ∧ conn.state = state ∧ conn.id = (s.tcp.conns k).id := by
      rw [← made, same]
      split <;> exact ⟨rfl, rfl, rfl⟩
    -- it stays in its state, or FIN was sent or received
    have reached : state = (s.tcp.conns k).state ∨ state.Ending := moved.imp (fun both => both.1.trans kept) fun both => both.1
    refine inv.set listeners set (fun received => ?_) (fun l mem => ⟨claimed'.trans claimed, ?_, id'⟩) fun l i mem other => ?_
    · rw [state']
      rcases reached with unmoved | rfl | rfl | rfl
      · rw [unmoved, received]
        decide
      all_goals decide
    · rw [state']
      rcases reached with unmoved | rfl | rfl | rfl
      · rw [unmoved]
        exact (inv.live l k mem).entered
      all_goals decide
    · exact id'.trans_ne ((inv.live l i mem).only k inside other)
  · rw [same] at set
    exact inv.closed listeners set (admits.closes k takes ack closing)

theorem Inv.delivered {a : Arrival} {random : BitVec 32} {t₁ : Tcp} {flush : Bool}
    (admits : Admits s.tcp a id) (delivered : Delivered s.tcp a id random t₁ flush) (output : t₁.Output flush t' emitted) :
    Inv ⟨t', s.entered t'⟩ := by
  have listeners : t'.listeners = t₁.listeners := by
    obtain ⟨ipId, rfl⟩ := output.tables
    cases flush <;> rfl
  -- setting a connection to what it is changes nothing
  have unchanged (conns : t₁.conns = s.tcp.conns) (tables : t₁.listeners = s.tcp.listeners) : Inv ⟨t', s.entered t'⟩ := by
    have set : SetTo s.tcp t' 0 (s.tcp.conns 0) := .of_output (conns.trans (update_eq_self ..).symm) output
    refine inv.set (listeners.trans tables) set (fun received => by rw [received]; decide) (fun l mem => ?_) fun l i mem other => ?_
    · exact ⟨(inv.live l 0 mem).claimed, (inv.live l 0 mem).entered, rfl⟩
    · exact (inv.live l i mem).only 0 (by decide) other
  cases delivered with
  | refused unknown closed => exact unchanged rfl rfl
  | opened unknown opens =>
    rename_i l k
    have set : SetTo s.tcp t' k (a.opened id random) := .of_output rfl output
    refine inv.set listeners set (fun _ => (by decide : TcpState.synReceived ≠ .established)) (fun l' mem => ?_) fun l' i mem _ same => ?_
    · -- the place was free, so that no pending connection is there
      cases (Tcp.of_freeConn opens.free).2.symm.trans (inv.live l' k mem).claimed
    · have same : id = (s.tcp.conns i).id := same
      exact admits.draws unknown l k opens (same ▸ inv.listed_id mem)
  | reset known rst => exact inv.closed listeners (.of_output rfl output) (admits.resets _ known rst)
  | unordered known plain idle other => exact unchanged rfl rfl
  | taken takes switched =>
    rename_i k
    obtain ⟨inside, claimed, -, localPort, -⟩ := Tcp.of_resolve takes.known
    have kept : ((s.tcp.conns k).acknowledge a.header a.payloadLen).state = (s.tcp.conns k).state := rfl
    cases switched with
    | connected state flags =>
      rw [Tcp.setConn_conns_self, kept] at state
      rw [Tcp.setConn_conns_self, Tcp.setConn_setConn] at output listeners
      have set := SetTo.of_output rfl output
      refine inv.set listeners set (fun received => ?_) (fun l mem => ⟨claimed, ?_, rfl⟩) fun l i mem other => ?_
      · cases state.symm.trans received
      · exact (by decide : TcpState.established ≠ .synReceived)
      · exact (inv.live l i mem).only k inside other
    | accepted state flags listener =>
      rw [Tcp.setConn_conns_self, kept] at state
      rename_i l
      have owner : s.tcp.resolvePassive (s.tcp.conns k).localPort = some l := by
        rw [localPort]
        exact listener
      obtain ⟨room, nonzero, only⟩ := admits.establishes k l takes state flags listener
      have set : SetTo s.tcp t' k { (s.tcp.conns k).acknowledge a.header a.payloadLen with state := .established } :=
        .of_output (by simp [Tcp.setConn, Tcp.setListener]) output
      refine inv.accepted set ⟨rfl, claimed, rfl⟩ state inside owner ?_ room nonzero only
      rw [listeners, Tcp.setConn_conns_self]
      rfl
    | advanced stays =>
      rw [Tcp.setConn_conns_self, Tcp.setConn_setConn] at output listeners
      exact inv.advanced listeners admits takes (.of_output rfl output)

theorem Inv.segment {src : Ipv4Addr} {data : Nat → Byte} {dataLen : BitVec 16} {random : BitVec 32}
    (admits : 20 ≤ dataLen.toNat → Admits s.tcp (arrival src data dataLen) id)
    (ret : (TcpCall.segment src data dataLen id random).run s.tcp = .ok (t', emitted)) : Inv ⟨t', s.entered t'⟩ := by
  obtain ⟨received, delivered, same⟩ := Outcome.of_bind ret
  cases same
  by_cases short : dataLen.toNat < 20
  · rw [tcpOnData_short s.tcp src data id random short] at delivered
    cases delivered
    refine inv.unentered rfl (fun l i mem => ⟨inv.live l i mem, rfl⟩) ?_
    rintro i ⟨before, after⟩
    cases before.symm.trans after
  · obtain ⟨t₁, flush, way, output, -⟩ := tcpOnData_ensures s.tcp src data id random (Nat.not_lt.mp short) received delivered
    exact inv.delivered (admits (Nat.not_lt.mp short)) way output

end

theorem Inv.accept_none (inv : s.Inv) {newId : BitVec 16} (owner : s.tcp.getPassive id = some l) (none : s.pending l = []) :
    tcpAccept s.tcp newId id = (false, s.tcp) := by
  have bound : l < tcpMaxListeners := mem_range.mp (mem_of_find?_eq_some owner)
  have empty : (s.tcp.listeners l).backlog.entries = [] := by rw [inv.listed l bound, none, map_nil]
  simp only [tcpAccept, owner, (inv.valid l bound).read_none empty]

theorem Inv.accept_some (inv : s.Inv) (newId : BitVec 16) {rest : List Nat} (owner : s.tcp.getPassive id = some l)
    (first : s.pending l = i :: rest) : ∃ backlog : Backlog, backlog.Valid ∧ backlog.entries =
      rest.map (fun j => (s.tcp.conns j).id) ∧
      tcpAccept s.tcp newId id =
        (true, (s.tcp.setListener l { s.tcp.listeners l with backlog := backlog }).setConn i { s.tcp.conns i with id := newId }) := by
  have bound : l < tcpMaxListeners := mem_range.mp (mem_of_find?_eq_some owner)
  have live : Live s.tcp i := inv.live l i (by rw [first]; exact mem_cons_self)
  have entries : (s.tcp.listeners l).backlog.entries = (s.tcp.conns i).id :: rest.map fun j => (s.tcp.conns j).id := by
    rw [inv.listed l bound, first, map_cons]
  obtain ⟨backlog, read, valid, others⟩ := (inv.valid l bound).read_some entries
  have found : (s.tcp.setListener l { s.tcp.listeners l with backlog := backlog }).getConn ((s.tcp.conns i).id.setWidth 32) = some i :=
    live.getConn
  refine ⟨backlog, valid, others, ?_⟩
  simp only [tcpAccept, owner, read, if_neg live.nonzero, found]
  rfl

theorem Inv.accepts (inv : s.Inv) (newId id : BitVec 16) : s.Accepts newId id := by
  intro l owner
  cases first : s.pending l with
  | nil =>
    rw [inv.accept_none owner first]
    exact ⟨rfl, rfl⟩
  | cons i rest =>
    obtain ⟨backlog, -, -, same⟩ := inv.accept_some newId owner first
    rw [same]
    exact ⟨rfl, rfl⟩

section Taken

variable {id : BitVec 16} {l : Nat}

theorem taken_of_ne (owner : s.tcp.getPassive id = some l) (differs : l' ≠ l) : s.taken id l' = s.pending l' := by
  rw [taken, owner, if_neg fun same => differs (some.inj same).symm]

theorem taken_nothing (nothing : ∀ l, s.tcp.getPassive id = some l → s.pending l = []) : s.taken id = s.pending := by
  funext l
  rw [taken]
  split
  next owner => rw [nothing l owner, tail_nil]
  next => rfl

theorem Inv.mem_taken (inv : s.Inv) (owner : s.tcp.getPassive id = some l) {rest : List Nat}
    (first : s.pending l = i :: rest) {j : Nat} (still : j ∈ s.taken id l') : j ∈ s.pending l' ∧ j ≠ i := by
  by_cases this : l' = l
  · rw [this, taken, if_pos owner, first, tail_cons] at still
    have once := inv.once l
    rw [first] at once
    rw [this, first]
    refine ⟨mem_cons_of_mem i still, ?_⟩
    rintro rfl
    exact (nodup_cons.mp once).1 still
  · rw [taken_of_ne owner this] at still
    refine ⟨still, ?_⟩
    rintro rfl
    exact this (inv.apart l' l j still (by rw [first]; exact mem_cons_self))

end Taken

theorem Inv.accept (inv : s.Inv) {newId : BitVec 16} (id : BitVec 16) (unlisted : ¬s.tcp.Listed newId) :
    Inv ⟨(tcpAccept s.tcp newId id).2, s.taken id⟩ := by
  cases owner : s.tcp.getPassive id with
  | none =>
    have same : s.taken id = s.pending := taken_nothing fun l found => by cases owner.symm.trans found
    simp only [tcpAccept, owner, same]
    exact inv
  | some l =>
    have bound : l < tcpMaxListeners := mem_range.mp (mem_of_find?_eq_some owner)
    cases first : s.pending l with
    | nil =>
      have same : s.taken id = s.pending := taken_nothing fun l' found => by
        cases owner.symm.trans found
        exact first
      rw [inv.accept_none owner first, same]
      exact inv
    | cons i rest =>
      -- `i` leaves the backlog and gets the new id, and the others stay as they are
      obtain ⟨backlog, valid, entries, accepted⟩ := inv.accept_some newId owner first
      rw [accepted]
      have here : s.taken id l = rest := by rw [taken, if_pos owner, first, tail_cons]
      have old {l' j : Nat} (still : j ∈ s.taken id l') := inv.mem_taken owner first still
      have once := inv.once l
      rw [first] at once
      have set : SetTo s.tcp ((s.tcp.setListener l { s.tcp.listeners l with backlog := backlog }).setConn i { s.tcp.conns i with id := newId }) i
          { s.tcp.conns i with id := newId } := fun j => ⟨_, _, rfl⟩
      have live {l' j : Nat} (still : j ∈ s.taken id l') := set.live (inv.live l' j (old still).1) (fun same => absurd same.symm (old still).2)
        fun _ same => unlisted (by
          have same : newId = (s.tcp.conns j).id := same
          rw [same]
          exact inv.listed_id (old still).1)
      refine inv.exchange bound valid rfl (fun l' => taken_of_ne owner) ?listed ?once (fun l' differs j still also => ?apart)
        (fun l' j still => (live still).1) fun l' j _ still => (live still).2
      case listed =>
        rw [entries, ← here]
        apply map_congr_left
        intro j still
        exact (live still).2.symm
      case once =>
        rw [here]
        exact (nodup_cons.mp once).2
      case apart => exact differs (inv.apart l' l j also (old still).1)

theorem Inv.step {s' : Accepting} (inv : s.Inv) (step : s.Step s') : s'.Inv := by
  cases step with
  | segment admits ret => exact inv.segment admits ret
  | accept unlisted => exact inv.accept _ unlisted

end Accepting

/-- In a run from empty backlogs whose steps meet the condition, the backlogs stand for the connections that wait, and the
next `tcp_accept` takes the first of them. -/
theorem established_connections_accepted (t : Tcp)
    (empty : ∀ l < tcpMaxListeners, (t.listeners l).backlog.head = (t.listeners l).backlog.tail ∧ (t.listeners l).backlog.tail < tcpBacklogSize)
    (s : Accepting) (run : ReflTransGen Accepting.Step ⟨t, fun _ => []⟩ s) : s.Kept ∧ ∀ newId id, s.Accepts newId id := by
  have start : Accepting.Inv ⟨t, fun _ => []⟩ := by
    refine ⟨fun l inside => ?_, fun l inside => ?_, fun _ _ => rfl, fun _ => nodup_nil, fun _ _ _ none => ?_, fun _ _ none => ?_⟩
    · obtain ⟨same, bound⟩ := empty l inside
      exact ⟨same.trans_lt bound, bound⟩
    · obtain ⟨same, bound⟩ := empty l inside
      exact (ring_eq_nil (same.trans_lt bound) bound).mpr same
    · cases none
    · cases none
  have inv := invariant_of_run Accepting.Inv (fun _ _ inv step => inv.step step) run start
  exact ⟨inv.kept, inv.accepts⟩

/-- SYN from a port, with the id that `rand16` returns. -/
def synFrom (port id : BitVec 16) : TcpCall := .segment (ipv4 10 0 2 2) (segmentTo80 port 0 0 tcpSyn []) 20 id 7

def ackFrom (port : BitVec 16) : TcpCall := .segment (ipv4 10 0 2 2) (segmentTo80 port 1 8 tcpAck []) 20 0 0

def Accepting.receive : Accepting → List TcpCall → Outcome Accepting
  | s, [] => pure s
  | s, call :: calls => do
    let (t', _) ← call.run s.tcp
    receive ⟨t', s.entered t'⟩ calls

/-- Four connections are asked for before the first of them is acknowledged. -/
def fourHandshakes : Outcome Accepting :=
  Accepting.receive ⟨listening, fun _ => []⟩
    [synFrom 1000 11, synFrom 1001 12, synFrom 1002 13, synFrom 1003 14, ackFrom 1000, ackFrom 1001, ackFrom 1002, ackFrom 1003]

/-- All four are established, and the backlog has three. -/
theorem fourth_connection_lost : ∃ s, fourHandshakes = .ok s ∧ s.pending 0 = [0, 1, 2, 3] ∧
    (s.tcp.listeners 0).backlog.entries = [11, 12, 13] ∧ ¬s.Kept := by
  have seen : (do let s ← fourHandshakes; pure (s.pending 0, (s.tcp.listeners 0).backlog.entries) : Outcome (List Nat × List (BitVec 16))) =
      .ok ([0, 1, 2, 3], [11, 12, 13]) := by decide +kernel
  obtain ⟨s, ran, same⟩ := Outcome.of_bind seen
  obtain ⟨pending, entries⟩ := Outcome.ok_inj same
  refine ⟨s, ran, pending, entries, fun kept => ?_⟩
  have listed := congrArg List.length (kept.listed 0 (by decide))
  rw [entries, pending, length_map] at listed
  cases listed

def askedOnce : Tcp := (listening.after (synFrom 1000 11)).1

/-- One connection is established and waits for `tcp_accept`. -/
theorem first_connection_waits : ∃ s, ReflTransGen Accepting.Step ⟨listening, fun _ => []⟩ s ∧ s.pending 0 = [0] ∧
    s.Kept ∧ ∀ newId id, s.Accepts newId id := by
  have asks := Tcp.run_after (by decide +kernel : ((synFrom 1000 11).run listening).isOk = true)
  have establishes := Tcp.run_after (by decide +kernel : ((ackFrom 1000).run askedOnce).isOk = true)
  have unknown : listening.resolve (arrival (ipv4 10 0 2 2) (segmentTo80 1000 0 0 tcpSyn []) 20) = none := by decide +kernel
  have known : askedOnce.resolve (arrival (ipv4 10 0 2 2) (segmentTo80 1000 1 8 tcpAck []) 20) = some 0 := by decide +kernel
  have first : Accepting.Admits listening (arrival (ipv4 10 0 2 2) (segmentTo80 1000 0 0 tcpSyn []) 20) 11 := by
    refine ⟨fun i l takes => ?_, fun _ l k opens => ?_, fun i known => ?_, fun i takes => ?_⟩
    · cases unknown.symm.trans takes.known
    · have empty : ∀ l < tcpMaxListeners, (11 : BitVec 16) ∉ (listening.listeners l).backlog.entries := by decide +kernel
      rintro ⟨l, inside, member⟩
      exact empty l inside member
    · cases unknown.symm.trans known
    · cases unknown.symm.trans takes.known
  have second : Accepting.Admits askedOnce (arrival (ipv4 10 0 2 2) (segmentTo80 1000 1 8 tcpAck []) 20) 0 := by
    refine ⟨fun i l takes _ _ listener => ?_, fun unknown => ?_, fun i _ rst => ?_, fun i takes _ closing => ?_⟩
    · cases known.symm.trans takes.known
      have owner : askedOnce.resolvePassive (htons (arrival (ipv4 10 0 2 2) (segmentTo80 1000 1 8 tcpAck []) 20).header.dstPort) = some 0 := by
        decide +kernel
      cases owner.symm.trans listener
      decide +kernel
    · cases known.symm.trans unknown
    · exact absurd (by decide +kernel) rst
    · cases known.symm.trans takes.known
      have state : (askedOnce.conns 0).state = .synReceived := by decide +kernel
      simp [TcpState.Closing, state] at closing
  have run : ReflTransGen Accepting.Step ⟨listening, fun _ => []⟩ _ :=
    (ReflTransGen.single (.segment (fun _ => first) asks)).tail (.segment (fun _ => second) establishes)
  refine ⟨_, run, by decide +kernel, established_connections_accepted listening ?_ _ run⟩
  decide +kernel

end Xos.Net
