import Xos.Net.UdpQueues

/-!
# The owners of a UDP socket

The sockets of the table are used again, and `udp_create_socket` does not empty the queue. What an owner receives is its
own when the queue was empty.
-/
namespace Xos.Net

open Relation Outcome Function

inductive OwnEvent where
  | arrived (payload : List Byte)
  | asked (maxLen : BitVec 16)

def pendingOf (events : List OwnEvent) : List (List Byte) :=
  events.foldl (fun items event => match event with
    | .arrived payload => enqueue items payload
    | .asked _ => items.tail) []

/-- The events of a socket after a call that looks for it. A new owner has none. -/
def UdpCall.noted : UdpCall → List OwnEvent → List OwnEvent
  | .create _, _ => []
  | .datagram data dataLen, events => events ++ [.arrived (payloadOf data dataLen)]
  | .receive _ maxLen, events => events ++ [.asked maxLen]
  | _, events => events

structure History where
  udp : Udp
  own : Nat → List OwnEvent

namespace History

def boot : History := ⟨udpInit, fun _ => []⟩

def after (s : History) (call : UdpCall) (u : Udp) : History :=
  ⟨u, (call.target s.udp).elim s.own fun i => update s.own i (call.noted (s.own i))⟩

def Reuses (u : Udp) : UdpCall → Prop
  | .create id => ∀ i, findFreeSocket u = some i →
      (u i).packets.head = (u i).packets.tail ∧ id ≠ 0 ∧ ∀ j < udpMaxSockets, (u j).id ≠ id
  | _ => True

inductive Runs : History → List UdpCall → History → Prop
  | nil {s} : Runs s [] s
  | cons {s s' call calls u} : call.run s.udp = .ok u → Reuses s.udp call →
    Runs (s.after call u) calls s' → Runs s (call :: calls) s'

structure Owned (s : History) : Prop where
  ids : DistinctIds s.udp
  valid : ∀ k, (s.udp k).packets.Valid
  contents : ∀ k < udpMaxSockets, (s.udp k).id ≠ 0 → (s.udp k).packets.contents = pendingOf (s.own k)

theorem Owned.boot : Owned boot where
  ids _ _ _ _ opened := absurd rfl opened
  valid _ := ⟨Nat.zero_lt_succ 7, Nat.zero_lt_succ 7⟩
  contents _ _ opened := absurd rfl opened

variable {call : UdpCall}

theorem after_eq {s : History} {i : Nat} (found : call.target s.udp = some i) (u : Udp) :
    s.after call u = ⟨u, update s.own i (call.noted (s.own i))⟩ := by
  rw [after, found, Option.elim_some]

theorem id_of_effect {u : Udp} {i : Nat} {s : UdpSocket} (effect : UdpCall.Effect u i call s) (opened : s.id ≠ 0)
    (old : (u i).id ≠ 0) : s.id = (u i).id := by
  cases effect with
  | created free => exact absurd free old
  | bound | refused | nic | listening | connected | waiting | received | delivered => rfl
  | closed => exact absurd rfl opened

theorem opened_of_effect {u : Udp} {i : Nat} {s : UdpSocket} (found : call.target u = some i)
    (effect : UdpCall.Effect u i call s) (reuses : Reuses u call) (opened : s.id ≠ 0) (old : (u i).id = 0) :
    (∀ j < udpMaxSockets, (u j).id ≠ s.id) ∧ s.packets.head = s.packets.tail ∧ ∀ events, call.noted events = [] := by
  cases effect with
  | created =>
    obtain ⟨empty, -, fresh⟩ := reuses i found
    exact ⟨fresh, empty, fun _ => rfl⟩
  | bound | refused | nic | listening | connected | waiting | received | delivered => exact absurd old opened
  | closed => exact absurd rfl opened

theorem pendingOf_noted {u : Udp} {i : Nat} {s : UdpSocket} (effect : UdpCall.Effect u i call s) (old : (u i).id ≠ 0)
    (events : List OwnEvent) : call.queued (pendingOf events) = pendingOf (call.noted events) := by
  cases effect with
  | created free => exact absurd free old
  | bound | refused | nic | listening | connected | closed | waiting => rfl
  | received | delivered => simp [pendingOf, UdpCall.noted, UdpCall.queued, List.foldl_append]

theorem Owned.step {s : History} {u : Udp} (owned : Owned s) (ran : call.run s.udp = .ok u) (reuses : Reuses s.udp call) :
    Owned (s.after call u) := by
  obtain ⟨ids, valid, contents⟩ := owned
  have queue k := contents_run (valid k) ran
  obtain ⟨found, rfl⟩ | ⟨i, new, found, effect, rfl⟩ := UdpCall.run_cases ran
  · rw [after, found]
    exact ⟨ids, valid, contents⟩
  · rw [after_eq found]
    refine ⟨ids.update ?_, fun k => (queue k).1, ?_⟩
    · intro opened j inside other same
      by_cases old : (s.udp i).id = 0
      · exact (opened_of_effect found effect reuses opened old).1 j inside same
      · rw [id_of_effect effect opened old] at same
        exact other (ids i (UdpCall.target_lt found) j inside old same.symm).symm
    · intro k inside opened
      dsimp only at opened ⊢
      rw [(queue k).2, found]
      by_cases here : i = k
      · subst here
        rw [update_self] at opened ⊢
        rw [if_pos rfl]
        by_cases old : (s.udp i).id = 0
        · obtain ⟨-, empty, none⟩ := opened_of_effect found effect reuses opened old
          have now := (queue i).2
          rw [found, if_pos rfl, update_self] at now
          have valid' := (queue i).1
          rw [update_self] at valid'
          rw [← now, none, valid'.contents_eq_nil.mpr empty]
          rfl
        · rw [contents i inside old]
          exact pendingOf_noted effect old _
      · rw [update_of_ne (Ne.symm here)] at opened ⊢
        rw [if_neg (by simpa using here)]
        exact contents k inside opened

theorem Runs.owned {s s' : History} {calls : List UdpCall} (run : Runs s calls s') (owned : Owned s) : Owned s' := by
  induction run with
  | nil => exact owned
  | cons ran reuses _ ih => exact ih (owned.step ran reuses)

theorem Owned.receives {s : History} (owned : Owned s) {k : Nat} (inside : k < udpMaxSockets) (opened : (s.udp k).id ≠ 0) :
    getSocket s.udp (s.udp k).id = some k ∧ ∀ maxLen, receives s.udp (s.udp k).id maxLen = answer (pendingOf (s.own k)) maxLen := by
  have found : getSocket s.udp (s.udp k).id = some k :=
    getSocket_eq_some inside rfl fun j insideJ same => (owned.ids k inside j insideJ opened same.symm).symm
  refine ⟨found, ?_⟩
  intro maxLen
  rw [receives_eq found (owned.valid k), owned.contents k inside opened]

def face (s : UdpSocket) : BitVec 16 × BitVec 16 × Bool := (s.id, s.localPort, s.isListenting)

def SameTable (u v : Udp) : Prop := ∀ i, face (u i) = face (v i)

namespace SameTable

variable {u v : Udp}

section

variable (same : SameTable u v)
include same

theorem id (i : Nat) : (u i).id = (v i).id := congrArg Prod.fst (same i)

theorem localPort (i : Nat) : (u i).localPort = (v i).localPort := congrArg (·.2.1) (same i)

theorem isListenting (i : Nat) : (u i).isListenting = (v i).isListenting := congrArg (·.2.2) (same i)

theorem isPortUsed (port : BitVec 16) : isPortUsed u port = isPortUsed v port := by
  simp only [Net.isPortUsed, same.id, same.localPort]

theorem target (call : UdpCall) : call.target u = call.target v := by
  cases call <;>
    simp only [UdpCall.target, findFreeSocket, getSocket, listener, getSocketForPort, same.id, same.localPort, same.isListenting]

theorem update {i : Nat} {s t : UdpSocket} (faces : face s = face t) : SameTable (update u i s) (update v i t) := by
  intro k
  by_cases here : k = i
  · subst here
    simpa using faces
  · rw [update_of_ne here, update_of_ne here]
    exact same k

theorem face_of_effect {i : Nat} {call : UdpCall} {s t : UdpSocket} (effectU : UdpCall.Effect u i call s)
    (effectV : UdpCall.Effect v i call t) : face s = face t := by
  cases effectU with
  | created =>
    cases effectV
    rfl
  | bound reserved unused =>
    cases effectV with
    | bound => simp only [face, same.id, same.isListenting]
    | refused why => simp [reserved, ← same.isPortUsed, unused] at why
  | refused why =>
    cases effectV with
    | bound reserved unused => simp [reserved, same.isPortUsed, unused] at why
    | refused => exact same i
  | nic | waiting | received | delivered =>
    cases effectV
    exact same i
  | listening | connected =>
    cases effectV
    simp only [face, same.id, same.localPort]
  | closed =>
    cases effectV
    simp only [face, same.localPort, same.isListenting]

theorem run {call : UdpCall} {u' v' : Udp} (ranU : call.run u = .ok u') (ranV : call.run v = .ok v') : SameTable u' v' := by
  have target := same.target call
  obtain ⟨foundU, rfl⟩ | ⟨i, s, foundU, effectU, rfl⟩ := UdpCall.run_cases ranU <;>
    obtain ⟨foundV, rfl⟩ | ⟨j, t, foundV, effectV, rfl⟩ := UdpCall.run_cases ranV
  · exact same
  · simp [foundU, foundV] at target
  · simp [foundU, foundV] at target
  · obtain rfl : i = j := by simpa [foundU, foundV] using target
    exact same.update (same.face_of_effect effectU effectV)

end

end SameTable

end History

/-- The calls that are not traffic: those that open, name and close sockets. -/
def UdpCall.isControl : UdpCall → Bool
  | .create _ | .bind _ _ _ | .bindNic _ _ | .listen _ | .connect _ _ _ | .close _ => true
  | .setReceiver _ _ | .receive _ _ | .datagram _ _ => false

namespace History

theorem SameTable.traffic {u u' : Udp} {call : UdpCall} (traffic : call.isControl = false)
    (ran : call.run u = .ok u') : SameTable u' u := by
  obtain ⟨-, rfl⟩ | ⟨i, s, -, effect, rfl⟩ := UdpCall.run_cases ran
  · exact fun _ => rfl
  · have faces : face s = face (u i) := by
      cases effect with
      | created | bound | refused | nic | listening | connected | closed => cases traffic
      | waiting | received | delivered => rfl
    intro k
    by_cases here : k = i
    · subst here
      rw [update_self]
      exact faces
    · rw [update_of_ne here]

theorem control_returns {call : UdpCall} (control : call.isControl = true) (u : Udp) : ∃ u', call.run u = .ok u' := by
  cases call with
  | create | bind | bindNic | listen | connect | close => exact ⟨_, rfl⟩
  | setReceiver | receive | datagram => cases control

variable {calls : List UdpCall}

theorem SameTable.runAll {u v u' : Udp} (same : SameTable u v) (ran : UdpCall.runAll u calls = .ok u') :
    ∃ v', UdpCall.runAll v (calls.filter UdpCall.isControl) = .ok v' ∧ SameTable u' v' := by
  induction calls generalizing u v with
  | nil =>
    cases ran
    exact ⟨v, rfl, same⟩
  | cons call calls ih =>
    obtain ⟨next, ran, rest⟩ := of_bind ran
    cases control : call.isControl with
    | true =>
      obtain ⟨nextV, ranV⟩ := control_returns control v
      obtain ⟨v', restV, same'⟩ := ih (same.run ran ranV) rest
      refine ⟨v', ?_, same'⟩
      rw [List.filter_cons_of_pos control]
      exact bind_eq_ok.mpr ⟨nextV, ranV, restV⟩
    | false =>
      rw [List.filter_cons_of_neg (by simp [control])]
      exact ih (fun i => (SameTable.traffic control ran i).trans (same i)) rest

theorem Runs.runAll {s s' : History} (run : Runs s calls s') : UdpCall.runAll s.udp calls = .ok s'.udp := by
  induction run with
  | nil => rfl
  | cons ran _ _ ih => exact bind_eq_ok.mpr ⟨_, ran, ih⟩

theorem Runs.alike {s s' t t' : History} {k : Nat} (run : Runs s calls s') (run' : Runs t calls t')
    (same : SameTable s.udp t.udp) (own : s.own k = t.own k) : s'.own k = t'.own k := by
  induction run generalizing t with
  | nil =>
    cases run'
    exact own
  | @cons s _ call _ u ran _ _ ih =>
    cases run' with
    | @cons _ _ _ _ v ran' _ rest' =>
      refine ih rest' (same.run ran ran') ?_
      simp only [after, same.target call]
      cases call.target t.udp with
      | none => exact own
      | some i =>
        by_cases here : k = i
        · subst here
          simp [own]
        · simpa [here] using own

theorem Runs.keeps_id {s s' : History} {k : Nat} {id : BitVec 16} (run : Runs s calls s') (nonzero : id ≠ 0)
    (owner : (s.udp k).id = id) (kept : .close id ∉ calls) : (s'.udp k).id = id := by
  induction run with
  | nil => exact owner
  | @cons s _ call _ u ran _ _ ih =>
    refine ih ?_ fun closed => kept (.tail _ closed)
    obtain ⟨-, rfl⟩ | ⟨i, new, -, effect, rfl⟩ := UdpCall.run_cases ran
    · exact owner
    · change (update s.udp i new k).id = id
      by_cases here : k = i
      · subst here
        rw [update_self]
        cases effect with
        | created free => exact absurd (owner.symm.trans free) nonzero
        | bound | refused | nic | listening | connected | waiting | received | delivered => exact owner
        | closed closing =>
          rw [← closing, owner] at kept
          exact absurd (.head _) kept
      · rw [update_of_ne here]
        exact owner

theorem SameTable.of_control {before before' : List UdpCall} {m m' : History}
    (first : Runs boot before m) (first' : Runs boot before' m')
    (control : before.filter UdpCall.isControl = before'.filter UdpCall.isControl) : SameTable m.udp m'.udp := by
  obtain ⟨v, ran, same⟩ := SameTable.runAll (fun _ => rfl) first.runAll
  obtain ⟨v', ran', same'⟩ := SameTable.runAll (fun _ => rfl) first'.runAll
  rw [control, ran'] at ran
  cases ran
  exact fun i => (same i).trans (same' i).symm

theorem Runs.created {m s : History} {id : BitVec 16} {k : Nat} (run : Runs m (.create id :: calls) s)
    (free : findFreeSocket m.udp = some k) (kept : .close id ∉ calls) : (s.udp k).id = id ∧ id ≠ 0 ∧
      ∃ u, (UdpCall.create id).run m.udp = .ok u ∧ (m.after (.create id) u).own k = [] ∧ Runs (m.after (.create id) u) calls s := by
  cases run with
  | @cons _ _ _ _ u ran reuses rest =>
    obtain ⟨-, nonzero, -⟩ := reuses k free
    refine ⟨rest.keeps_id nonzero ?_ kept, nonzero, u, ran, ?_, rest⟩
    · cases ran
      simp [after, udpCreateSocket, free]
    · rw [after_eq (show (UdpCall.create id).target m.udp = some k from free)]
      simp [UdpCall.noted]

/-- A socket is created after two histories that differ only in traffic, and the same calls follow. In each of them
sockets were created only with new ids and with empty queues. Then what it receives is given by what came in for it
since it was created, and is the same after both. -/
theorem receives_own_only {before before' calls : List UdpCall} {id : BitVec 16} {m m' s s' : History}
    (first : Runs boot before m) (first' : Runs boot before' m')
    (control : before.filter UdpCall.isControl = before'.filter UdpCall.isControl) (created : (udpCreateSocket m.udp id).1 = .ok)
    (second : Runs m (.create id :: calls) s) (second' : Runs m' (.create id :: calls) s') (kept : .close id ∉ calls) :
    ∃ k, getSocket s.udp id = some k ∧ (∀ maxLen, receives s.udp id maxLen = answer (pendingOf (s.own k)) maxLen) ∧
      ∀ maxLen, receives s'.udp id maxLen = receives s.udp id maxLen := by
  have same := SameTable.of_control first first' control
  obtain ⟨k, free⟩ : ∃ k, findFreeSocket m.udp = some k := by
    cases free : findFreeSocket m.udp with
    | none => simp [udpCreateSocket, free] at created
    | some k => exact ⟨k, rfl⟩
  have free' : findFreeSocket m'.udp = some k := (same.target (.create id)).symm.trans free
  obtain ⟨owner, nonzero, u, ran, none, rest⟩ := second.created free kept
  obtain ⟨owner', -, u', ran', none', rest'⟩ := second'.created free' kept
  have own : s.own k = s'.own k := rest.alike rest' (same.run ran ran') (none.trans none'.symm)
  have inside := (findFreeSocket_some free).1
  obtain ⟨found, received⟩ := (second.owned (first.owned .boot)).receives inside (owner ▸ nonzero)
  obtain ⟨-, received'⟩ := (second'.owned (first'.owned .boot)).receives inside (owner' ▸ nonzero)
  rw [owner] at found received
  rw [owner'] at received'
  refine ⟨k, found, received, ?_⟩
  intro maxLen
  rw [received maxLen, received' maxLen, own]

/-- Socket 1 listens at port 1000 and is closed, with or without a datagram coming in before. -/
def closedAfter (traffic : List UdpCall) : List UdpCall := [.create 1, .bind 1 0 1000, .listen 1] ++ traffic ++ [.close 1]

/-- The next owner receives the datagram of the one before. -/
theorem next_owner_receives :
    (UdpCall.runAll udpInit (closedAfter [.datagram (datagramTo 1000) 10] ++ [.create 2]) >>= fun u => pure (receives u 2 100)) = .ok (1, [0, 0]) ∧
      (UdpCall.runAll udpInit (closedAfter [] ++ [.create 2]) >>= fun u => pure (receives u 2 100)) = .ok (0, []) := by
  decide +kernel

theorem reuses_create {u : Udp} {id : BitVec 16} {i : Nat} (free : findFreeSocket u = some i)
    (empty : (u i).packets.head = (u i).packets.tail)
    (nonzero : id ≠ 0) (fresh : ∀ j < udpMaxSockets, (u j).id ≠ id) : Reuses u (.create id) := by
  intro k found
  cases free.symm.trans found
  exact ⟨empty, nonzero, fresh⟩

/-- When it has been received by the one before, the next owner sees nothing of it. -/
theorem next_owner_receives_nothing :
    ∃ m m' s s', Runs boot (closedAfter [.datagram (datagramTo 1000) 10, .receive 1 100]) m ∧ Runs boot (closedAfter []) m' ∧
      Runs m [.create 2] s ∧ Runs m' [.create 2] s' ∧ ∀ maxLen, receives s'.udp 2 maxLen = receives s.udp 2 maxLen := by
  have create1 : Reuses udpInit (.create 1) := reuses_create rfl rfl (by decide) (by decide)
  have first : Runs boot (closedAfter [.datagram (datagramTo 1000) 10, .receive 1 100]) _ :=
    .cons rfl create1 (.cons rfl trivial (.cons rfl trivial (.cons rfl trivial (.cons rfl trivial (.cons rfl trivial .nil)))))
  have first' : Runs boot (closedAfter []) _ := .cons rfl create1 (.cons rfl trivial (.cons rfl trivial (.cons rfl trivial .nil)))
  obtain ⟨-, -, -, same⟩ := @receives_own_only _ _ [] 2 _ _ _ _ first first' rfl rfl
    (.cons rfl (reuses_create rfl rfl (by decide) (by decide)) .nil) (.cons rfl (reuses_create rfl rfl (by decide) (by decide)) .nil)
    List.not_mem_nil
  exact ⟨_, _, _, _, first, first', .cons rfl (reuses_create rfl rfl (by decide) (by decide)) .nil,
    .cons rfl (reuses_create rfl rfl (by decide) (by decide)) .nil, same⟩

end History

end Xos.Net
