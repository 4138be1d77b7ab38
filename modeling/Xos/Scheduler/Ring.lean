import Xos.Lib.Links
import Xos.Lib.Pool
import Xos.Memory.AddressSpaces
import Xos.Scheduler.Sched

/-!
# The ring of tasks (`scheduler.c`)

The ring is made of the tasks that were added and not killed, until its head is killed: `g_task_list` then stays at the
killed task.
-/
namespace Xos.Scheduler

open Lib Memory Relation Outcome Function List

variable {t u : Nat}

namespace Sched

def Alive (s : Sched) (t : Nat) : Prop := ∃ state, s.state t = some state ∧ state ≠ .dead

theorem alive_setState {s : Sched} {state : TaskState} :
    (s.setState t state).Alive u ↔ if u = t then state ≠ .dead else s.Alive u := by
  by_cases same : u = t
  · subst same
    simp [Alive, setState]
  · simp [Alive, setState, same]

theorem alive_switch {s : Sched} : (s.switch t).Alive u ↔ u = t ∨ s.Alive u := by
  by_cases same : u = t
  · simp [Alive, same]
  · rw [Alive, switch_state, update_of_ne same, or_iff_right same]
    rcases s.stopped_cases u with ⟨stays, -⟩ | ⟨-, running, stops⟩
    · rw [stays, Alive]
    · simp [Alive, running, stops]

/-- The links of the added tasks lead to added tasks; the other records have no links, and there is
no record at the null pointer. -/
structure Closed (s : Sched) (added : Set Nat) : Prop where
  null : s.state 0 = none
  noNext : s.next 0 = none
  head : s.head = 0 ∨ s.head ∈ added
  record : ∀ t ∈ added, s.state t ≠ none
  next : ∀ t ∈ added, ∃ n ∈ added, s.next t = some n
  prev : ∀ t ∈ added, ∃ p ∈ added, s.prev t = some p
  outside : ∀ t ∉ added, s.prev t = none ∨ s.prev t = some 0

def Whole (s : Sched) (added : Set Nat) : Prop :=
  ∃ rest, IsRing s.next s.prev s.head rest ∧ ∀ t, t ∈ s.head :: rest ↔ t ∈ added ∧ s.Alive t

end Sched

def Act.grow (added : Set Nat) : Act → Set Nat
  | .add t => insert t added
  | .wake _ | .block _ | .kill _ | .switch _ => added

variable {added : Set Nat} {k k' : Kernel}

theorem Act.mem_grow {act : Act} : u ∈ act.grow added ↔ act = .add u ∨ u ∈ added := by
  cases act <;> simp [Act.grow, eq_comm]

namespace Sched

variable {s s' : Sched} {added : Set Nat} {act : Act} {t : Nat}

theorem Closed.null_notMem (closed : s.Closed added) : 0 ∉ added := fun mem => closed.record 0 mem closed.null

theorem Closed.killed (closed : s.Closed added) {before : Nat} (prev : s.prev t = some before)
    (there : s.next before ≠ none) : t ∈ added := by
  by_contra outside
  rcases closed.outside t outside with none | null
  · rw [none] at prev
    cases prev
  · rw [prev, Option.some.injEq] at null
    exact there (null ▸ closed.noNext)

theorem exists_update {f : Nat → Option Nat} {a b : Nat} (mem : b ∈ added)
    (inside : ∀ u ∈ added, ∃ v ∈ added, f u = some v) (u : Nat) (here : u ∈ added) :
      ∃ v ∈ added, update f a (some b) u = some v := by
  by_cases same : u = a
  · subst same
    exact ⟨b, mem, update_self ..⟩
  · rw [update_of_ne same]
    exact inside u here

theorem exists_insert {f : Nat → Option Nat} {a b : Nat} (inside : ∀ u ∈ added, ∃ v ∈ added, f u = some v)
    (mem : b ∈ insert a added) (u : Nat) (here : u ∈ insert a added) : ∃ v ∈ insert a added, update f a (some b) u = some v := by
  by_cases same : u = a
  · subst same
    exact ⟨b, mem, update_self ..⟩
  · rw [update_of_ne same]
    obtain ⟨v, old, link⟩ := inside u (here.resolve_left same)
    exact ⟨v, Set.mem_insert_of_mem a old, link⟩

theorem Closed.step (closed : s.Closed added) (step : SchedStep act s s') : s'.Closed (act.grow added) := by
  have null : s'.state 0 = none := by
    refine (step.state_eq_none 0).mpr ⟨closed.null, ?_⟩
    rintro rfl
    cases step with
    | addFirst _ null => exact null rfl
    | addLast _ null => exact null rfl
  have record : ∀ u ∈ act.grow added, s'.state u ≠ none := by
    intro u mem missing
    obtain ⟨missing, old⟩ := (step.state_eq_none u).mp missing
    exact closed.record u ((Act.mem_grow.mp mem).resolve_left old) missing
  cases step with
  | wake => exact ⟨null, closed.noNext, closed.head, record, closed.next, closed.prev, closed.outside⟩
  | block => exact ⟨null, closed.noNext, closed.head, record, closed.next, closed.prev, closed.outside⟩
  | switch => exact ⟨null, closed.noNext, closed.head, record, closed.next, closed.prev, closed.outside⟩
  | @kill _ t before after state found prev next there here =>
    have mem := closed.killed prev there
    obtain ⟨p, pAdded, pPrev⟩ := closed.prev t mem
    obtain ⟨n, nAdded, nNext⟩ := closed.next t mem
    obtain rfl : p = before := Option.mem_unique pPrev prev
    obtain rfl : n = after := Option.mem_unique nNext next
    refine ⟨null, ?_, closed.head, record, fun u here => exists_update nAdded closed.next u here,
      fun u here => exists_update pAdded closed.prev u here, fun u outside => ?_⟩
    · have other : 0 ≠ p := fun same => closed.null_notMem (same ▸ pAdded)
      rw [unlink_next, update_of_ne other]
      exact closed.noNext
    · have other : u ≠ n := fun same => outside (same ▸ nAdded)
      rw [unlink_prev, update_of_ne other]
      exact closed.outside u outside
  | @addFirst _ t fresh nonnull empty =>
    have inserted : t ∈ insert t added := Set.mem_insert ..
    refine ⟨null, ?_, .inr inserted, record, exists_insert closed.next inserted, exists_insert closed.prev inserted,
      fun u outside => ?_⟩
    · rw [insertFirst_next, update_of_ne nonnull.symm, closed.noNext]
    · rw [Act.mem_grow, not_or] at outside
      have other : u ≠ t := fun same => outside.1 (same ▸ rfl)
      rw [insertFirst_prev, update_of_ne other]
      exact closed.outside u outside.2
  | @addLast _ t last fresh nonnull head prev there =>
    have inserted : t ∈ insert t added := Set.mem_insert ..
    have headAdded := closed.head.resolve_left head
    obtain ⟨p, lastAdded, same⟩ := closed.prev s.head headAdded
    obtain rfl : p = last := Option.mem_unique same prev
    have grown : added ⊆ insert t added := Set.subset_insert ..
    refine ⟨null, ?_, .inr (grown headAdded), record,
      fun u mem => exists_update inserted (exists_insert closed.next (grown headAdded)) u mem,
      fun u mem => exists_update inserted (exists_insert closed.prev (grown lastAdded)) u mem,
      fun u outside => ?_⟩
    · have other : 0 ≠ p := fun same => closed.null_notMem (same ▸ lastAdded)
      rw [insertLast_next, update_of_ne other, update_of_ne nonnull.symm, closed.noNext]
    · rw [Act.mem_grow, not_or] at outside
      have new : u ≠ t := fun same => outside.1 (same ▸ rfl)
      have other : u ≠ s.head := fun same => outside.2 (same ▸ headAdded)
      rw [insertLast_prev, update_of_ne other, update_of_ne new]
      exact closed.outside u outside.2

/-- Nothing has been added, or the head has been killed, or the ring is whole. -/
structure Ringed (s : Sched) (added : Set Nat) : Prop where
  closed : s.Closed added
  shape : s.head = 0 ∧ added = ∅ ∨ s.head ∈ added ∧ ¬ s.Alive s.head ∨ s.Whole added

section

variable (ringed : s.Ringed added)
include ringed

theorem Ringed.states (closed : s'.Closed added) (next : s'.next = s.next)
    (prev : s'.prev = s.prev) (head : s'.head = s.head) (alive : ∀ u ∈ added, s'.Alive u ↔ s.Alive u) : s'.Ringed added := by
  refine ⟨closed, ?_⟩
  rcases ringed.shape with empty | stale | ⟨rest, ring, members⟩
  · exact .inl ⟨head.trans empty.1, empty.2⟩
  · refine .inr (.inl ?_)
    rw [head, alive _ stale.1]
    exact stale
  · refine .inr (.inr ⟨rest, by rw [next, prev, head]; exact ring, fun u => ?_⟩)
    rw [head, members]
    exact and_congr_right fun mem => (alive u mem).symm

private theorem Ringed.kill (alive : s.Alive t)
    {before after : Nat} {state : TaskState} (found : s.state t = some state) (prev : s.prev t = some before)
    (next : s.next t = some after) (there : s.next before ≠ none) (here : s.prev after ≠ none) :
    ((s.setState t .dead).unlink before after).Ringed added := by
  have closed := ringed.closed.step (.kill found prev next there here)
  have member := ringed.closed.killed prev there
  have killed (u : Nat) : ((s.setState t .dead).unlink before after).Alive u ↔ s.Alive u ∧ u ≠ t := by
    refine alive_setState.trans ?_
    by_cases same : u = t <;> simp [same]
  refine ⟨closed, ?_⟩
  rcases ringed.shape with empty | stale | ⟨rest, ring, members⟩
  · exact absurd member (by simp [empty.2])
  · exact .inr (.inl ⟨stale.1, fun stays => stale.2 ((killed s.head).mp stays).1⟩)
  · rcases mem_cons.mp ((members t).mpr ⟨member, alive⟩) with rfl | inRest
    · -- the pointer to the head is not moved on
      exact .inr (.inl ⟨member, fun stays => ((killed s.head).mp stays).2 rfl⟩)
    · obtain ⟨front, back, rfl⟩ := append_of_mem inRest
      refine .inr (.inr ⟨front ++ back, ring.remove prev next, fun u => ?_⟩)
      have once : t ∉ s.head :: (front ++ back) := by
        have nodup := ring.nodup
        rw [← cons_append] at nodup ⊢
        exact (nodup_middle.mp nodup).notMem
      rw [killed, ← and_assoc, ← members u]
      constructor
      · intro inside
        refine ⟨?_, fun same => once (same ▸ inside)⟩
        rcases mem_cons.mp inside with rfl | inside
        · exact mem_cons_self
        · exact mem_cons_of_mem _ ((sublist_cons_self t back).append_left front |>.mem inside)
      · rintro ⟨inside, other⟩
        rcases mem_cons.mp inside with rfl | inside
        · exact mem_cons_self
        · refine mem_cons_of_mem _ ?_
          simpa [other] using inside

theorem Ringed.addFirst (fresh : s.state t = none) (null : t ≠ 0) (empty : s.head = 0) :
    (s.insertFirst t).Ringed (insert t added) := by
  have nothing : added = ∅ := by
    rcases ringed.shape with none | stale | ⟨rest, ring, members⟩
    · exact none.2
    · exact absurd (empty ▸ stale.1) ringed.closed.null_notMem
    · exact absurd (empty ▸ ((members s.head).mp mem_cons_self).1) ringed.closed.null_notMem
  refine ⟨ringed.closed.step (.addFirst fresh null empty), .inr (.inr ⟨[], .single ?_ ?_, fun u => ?_⟩)⟩
  · exact update_self ..
  · exact update_self ..
  · rw [nothing, insertFirst_head, mem_singleton]
    refine ⟨?_, fun here => by simpa using here.1⟩
    rintro rfl
    exact ⟨.inl rfl, .ready, update_self .., by decide⟩

theorem Ringed.addLast {last : Nat} (fresh : s.state t = none) (null : t ≠ 0)
    (head : s.head ≠ 0) (prev : s.prev s.head = some last) (there : s.next last ≠ none) :
    (s.insertLast t last).Ringed (insert t added) := by
  have new : t ∉ added := fun mem => ringed.closed.record t mem fresh
  have alive (u : Nat) : (s.insertLast t last).Alive u ↔ u = t ∨ s.Alive u := by
    by_cases same : u = t <;> simp [Alive, insertLast, same]
  refine ⟨ringed.closed.step (.addLast fresh null head prev there), ?_⟩
  rcases ringed.shape with none | stale | ⟨rest, ring, members⟩
  · exact absurd none.1 head
  · refine .inr (.inl ⟨Set.mem_insert_of_mem t stale.1, fun stays => ?_⟩)
    rcases (alive s.head).mp stays with same | stays
    · exact new (same ▸ stale.1)
    · exact stale.2 stays
  · have outside : t ∉ s.head :: rest := fun inside => new ((members t).mp inside).1
    refine .inr (.inr ⟨rest ++ [t], ring.append outside prev, fun u => ?_⟩)
    rw [alive, insertLast_head, ← cons_append, mem_append, members, mem_singleton, Set.mem_insert_iff]
    constructor
    · rintro (⟨mem, stays⟩ | same)
      · exact ⟨.inr mem, .inr stays⟩
      · exact ⟨.inl same, .inl same⟩
    · rintro ⟨mem, same | stays⟩
      · exact .inr same
      · rcases mem with same | mem
        · exact .inr same
        · exact .inl ⟨mem, stays⟩

theorem Ringed.step (step : SchedStep act s s') (kills : ∀ t, act = .kill t → s.Alive t)
    (switches : ∀ t ∈ added, act = .switch t → s.Alive t) : s'.Ringed (act.grow added) := by
  have closed := ringed.closed.step step
  cases step with
  | @wake _ t blocked =>
    refine ringed.states closed rfl rfl rfl fun u _ => alive_setState.trans ?_
    by_cases same : u = t
    · subst same
      simp [Alive, blocked]
    · simp [same]
  | @block _ t state found alive =>
    refine ringed.states closed rfl rfl rfl fun u _ => alive_setState.trans ?_
    by_cases same : u = t
    · subst same
      simp [Alive, found, alive]
    · simp [same]
  | @switch _ t null other found picked =>
    refine ringed.states closed rfl rfl rfl fun u mem => alive_switch.trans ⟨?_, .inr⟩
    rintro (rfl | stays)
    · exact switches u mem rfl
    · exact stays
  | kill found prev next there here => exact ringed.kill (kills _ rfl) found prev next there here
  | addFirst fresh null empty => exact ringed.addFirst fresh null empty
  | addLast fresh null head prev there => exact ringed.addLast fresh null head prev there

end

theorem alive_of_kill (step : SchedStep (.kill t) s s') (notDead : s.state t ≠ some .dead) : s.Alive t := by
  cases step with
  | @kill _ _ _ _ state found => exact ⟨state, found, fun dead => notDead (dead ▸ found)⟩

/-- The rule for the cascade of `process_kill`, which kills only tasks that are alive. -/
theorem cascade_rule (inv : Sched → Prop) (wakes : ∀ s s' t, inv s → SchedStep (.wake t) s s' → inv s')
    (kills : ∀ s s' t, inv s → s.Alive t → SchedStep (.kill t) s s' → inv s') (run : ReflTransGen CascadeStep s s')
    (initial : inv s) : inv s' := by
  refine invariant_of_run inv (fun s s' before step => ?_) run initial
  rcases step with ⟨t, woken⟩ | ⟨t, alive, killed⟩
  · exact wakes s s' t before woken
  · exact kills s s' t before (alive_of_kill killed alive) killed

theorem Ringed.cascade (ringed : s.Ringed added) (run : ReflTransGen CascadeStep s s') : s'.Ringed added :=
  cascade_rule (Ringed · added) (fun _ _ _ ringed woken => ringed.step woken nofun nofun)
    (fun _ _ _ ringed alive killed => ringed.step killed (fun _ same => Act.kill.inj same ▸ alive) nofun) run ringed

end Sched

/-- Only a switch could bring a task back from the dead. -/
theorem SchedStep.dead_stays {s s' : Sched} {act : Act} (step : SchedStep act s s')
    (switches : ∀ t, act = .switch t → s.state t ≠ some .dead) (dead : s.state u = some .dead) : s'.state u = some .dead := by
  have other {t : Nat} {state : TaskState} (found : s.state t = some state) (alive : state ≠ .dead) : u ≠ t := by
    rintro rfl
    exact alive (Option.mem_unique found dead)
  have old {t : Nat} (fresh : s.state t = none) : u ≠ t := by
    rintro rfl
    cases fresh.symm.trans dead
  cases step with
  | wake blocked => exact (update_of_ne (other blocked (by decide)) ..).trans dead
  | block found alive => exact (update_of_ne (other found alive) ..).trans dead
  | @kill _ t =>
    by_cases same : u = t
    · subst same
      exact update_self ..
    · exact (update_of_ne same ..).trans dead
  | addFirst fresh => exact (update_of_ne (old fresh) ..).trans dead
  | addLast fresh => exact (update_of_ne (old fresh) ..).trans dead
  | @switch _ t =>
    rw [Sched.switch_state, update_of_ne]
    · rcases s.stopped_cases u with ⟨stays, -⟩ | ⟨-, running, -⟩
      · exact stays.trans dead
      · cases dead.symm.trans running
    · rintro rfl
      exact switches u rfl dead

theorem Cascade.dead_stays (cascade : Cascade k k') (dead : k.sched.state u = some .dead) : k'.sched.state u = some .dead :=
  Sched.cascade_rule (fun s => s.state u = some .dead) (fun _ _ _ dead woken => woken.dead_stays nofun dead)
    (fun _ _ _ dead _ killed => killed.dead_stays nofun dead) cascade.1 dead

theorem Cascade.current (cascade : Cascade k k') : k'.currentTask = k.currentTask ∧ k'.idle = k.idle := by
  have kept {s s' : Sched} {t : Nat} (step : SchedStep (.wake t) s s' ∨ SchedStep (.kill t) s s') :
      s'.current = s.current ∧ s'.idle = s.idle := by
    rcases step with step | step <;> cases step <;> exact ⟨rfl, rfl⟩
  exact Sched.cascade_rule (fun s => s.current = k.currentTask ∧ s.idle = k.idle)
    (fun _ _ _ before woken => ⟨(kept (.inl woken)).1.trans before.1, (kept (.inl woken)).2.trans before.2⟩)
    (fun _ _ _ before _ killed => ⟨(kept (.inr killed)).1.trans before.1, (kept (.inr killed)).2.trans before.2⟩)
    cascade.1 ⟨rfl, rfl⟩

theorem taskKill_ringed (ringed : k.sched.Ringed added)
    (alive : k.sched.Alive t) (ret : taskKill k t = .ok k') : k'.sched.Ringed added := by
  obtain ⟨mid, killed, -, cascade⟩ := taskKill_sched ret
  refine (ringed.step killed (fun u same => ?_) nofun).cascade cascade.1
  exact Act.kill.inj same ▸ alive

/-- A record for a new task: its block was not in use, and `task_create` has set its state. -/
structure FreshTask (k : Kernel) (t : Nat) (task : Task) : Prop where
  unused : k.tasks t = none
  nonnull : t ≠ 0
  address : t < 2 ^ 64
  ready : task.state = .ready

theorem schedulerAdd_step {task : Task} (closed : k.sched.Closed added)
    (fresh : FreshTask k t task) (ret : schedulerAdd (k.setTask t task) t = .ok k') :
    SchedStep (.add t) k.sched k'.sched ∧ Frame (k.setTask t task) k' := by
  have new : t ∉ added := fun mem => closed.record t mem (congrArg (Option.map _) fresh.unused)
  refine schedulerAdd_sched fresh.unused fresh.nonnull fresh.ready ?_ ?_ ret
  · rintro rfl
    rcases closed.head with null | mem
    · exact fresh.nonnull null
    · exact new mem
  · intro link
    by_cases mem : k.taskList ∈ added
    · obtain ⟨p, inside, same⟩ := closed.prev _ mem
      exact new (Option.mem_unique same link ▸ inside)
    · rcases closed.outside _ mem with none | null
      · cases none.symm.trans link
      · exact fresh.nonnull (Option.mem_unique link null)

structure RingLedger where
  kernel : Kernel
  added : Set Nat

/-- A fresh task is added, a task of the ring is killed, or something happens that the scheduler does
not see. -/
inductive RingStep (l : RingLedger) : RingLedger → Prop
  | add {k' : Kernel} {t : Nat} {task : Task} (fresh : FreshTask l.kernel t task)
      (returned : schedulerAdd (l.kernel.setTask t task) t = .ok k') : RingStep l ⟨k', insert t l.added⟩
  | kill {k' : Kernel} {t : Nat} (member : t ∈ l.added) (alive : l.kernel.sched.Alive t)
      (returned : taskKill l.kernel t = .ok k') : RingStep l ⟨k', l.added⟩
  | other {k' : Kernel} (unseen : k'.sched = l.kernel.sched) : RingStep l ⟨k', l.added⟩

structure Kernel.Unlinked (k : Kernel) : Prop where
  empty : k.taskList = 0
  null : k.tasks 0 = none
  links : ∀ t task, k.tasks t = some task → task.prev = 0

/-- `g_task_list` is null when no added task is left, and otherwise leads around the ring of them,
forward along `next` and backward along `prev`. -/
def RingLedger.Exact (l : RingLedger) : Prop :=
  (l.kernel.taskList = 0 ↔ ∀ t ∈ l.added, ¬ l.kernel.sched.Alive t) ∧
    (l.kernel.taskList ≠ 0 → l.kernel.sched.Whole l.added)

private theorem Kernel.Unlinked.ringed (start : k.Unlinked) : k.sched.Ringed ∅ := by
  refine ⟨⟨congrArg (Option.map _) start.null, congrArg (Option.map _) start.null, .inl start.empty, nofun, nofun, nofun,
    fun t _ => ?_⟩, .inl ⟨start.empty, rfl⟩⟩
  cases found : k.tasks t with
  | none => exact .inl (congrArg (Option.map _) found)
  | some task => exact .inr ((Kernel.sched_prev found).trans (congrArg some (start.links t task found)))

private theorem RingStep.ringed {l l' : RingLedger} (ringed : l.kernel.sched.Ringed l.added) (step : RingStep l l') :
    l'.kernel.sched.Ringed l'.added := by
  cases step with
  | add fresh ret => exact ringed.step (schedulerAdd_step ringed.closed fresh ret).1 nofun nofun
  | kill mem alive ret => exact taskKill_ringed ringed alive ret
  | other unseen =>
    rwa [unseen]

/-- The ring is exact in just those reachable states in which its head has not been killed. -/
theorem ring_exact_iff_head_alive {k : Kernel} (start : k.Unlinked) {l : RingLedger}
    (run : ReflTransGen RingStep ⟨k, ∅⟩ l) :
    l.Exact ↔ l.kernel.sched.state l.kernel.taskList ≠ some .dead := by
  have ringed := invariant_of_run (fun l => l.kernel.sched.Ringed l.added) (fun _ _ => RingStep.ringed) run start.ringed
  constructor
  · rintro ⟨-, whole⟩ dead
    have nonnull : l.kernel.taskList ≠ 0 := fun null => by
      rw [null, ringed.closed.null] at dead
      cases dead
    obtain ⟨rest, -, members⟩ := whole nonnull
    obtain ⟨state, found, alive⟩ := ((members _).mp mem_cons_self).2
    exact alive (Option.mem_unique found dead)
  · intro notDead
    rcases ringed.shape with ⟨null, none⟩ | ⟨member, killed⟩ | whole
    · refine ⟨⟨fun _ t member => ?_, fun _ => null⟩, fun nonnull => absurd null nonnull⟩
      rw [none] at member
      exact member.elim
    · -- an added task that is not alive is dead
      obtain ⟨state, found⟩ := Option.ne_none_iff_exists'.mp (ringed.closed.record _ member)
      refine absurd ⟨state, found, fun dead => ?_⟩ killed
      exact notDead (dead ▸ found)
    · obtain ⟨rest, ring, members⟩ := whole
      obtain ⟨member, alive⟩ := (members _).mp mem_cons_self
      have nonnull : l.kernel.taskList ≠ 0 := fun null => ringed.closed.null_notMem (null ▸ member)
      exact ⟨⟨fun null => absurd null nonnull, fun none => absurd alive (none _ member)⟩, fun _ => ⟨rest, ring, members⟩⟩

def emptyKernel : Kernel where
  vmm := bootVmm
  tasks := fun _ => none
  processes := fun _ => none
  channels := fun _ => none
  currentTask := 0
  taskList := 0
  idle := 0
  schedulerRunning := false
  nextId := 1
  firstProcess := 0
  lastProcess := 0
  nextPid := 1

def plainProcess (pid mainTask : Nat) : Process where
  pid := pid
  parentPid := 0
  nextTaskIndex := 1
  addressSpace := bootVmm.kernelSpace
  heapNext := userHeapBase
  handles := fun _ => ⟨.none, 0⟩
  exitCode := 0
  mainTask := mainTask
  waitingTask := 0
  next := 0
  prev := 0
  firstChild := 0
  nextSibling := 0

/-- The record of a task as `task_create` leaves it, with its owner. -/
def plainTask (id owner : Nat) : Task := ⟨id, 0, .ready, owner, 0, 0, 0, 0, 0⟩

def twoOwners : Kernel := (emptyKernel.setProcess 0x10 (plainProcess 1 0x20)).setProcess 0x40 (plainProcess 2 0x50)

theorem twoOwners_unlinked : twoOwners.Unlinked := ⟨rfl, rfl, nofun⟩

/-- Two tasks are added and the first is killed: `g_task_list` leads to the killed task. -/
theorem killed_head_on_ring : twoOwners.Unlinked ∧ ∃ l, ReflTransGen RingStep ⟨twoOwners, ∅⟩ l ∧ ¬l.Exact := by
  have run : (schedulerAdd (twoOwners.setTask 0x20 (plainTask 1 0x10)) 0x20 >>= fun k₁ =>
      schedulerAdd (k₁.setTask 0x50 (plainTask 2 0x40)) 0x50 >>= fun k₂ =>
      taskKill k₂ 0x20 >>= fun k₃ =>
      pure ((k₁.tasks 0x50).isNone, (k₂.tasks 0x20).map Task.state, k₃.taskList, (k₃.tasks 0x20).map Task.state)) =
      .ok (true, some .ready, 0x20, some .dead) := by
    decide +kernel
  obtain ⟨k₁, k₂, first, second, rest⟩ := of_bind₂ run
  obtain ⟨k₃, killed, seen⟩ := of_bind rest
  simp only [ok_pair, Prod.mk.injEq, Option.isNone_iff_eq_none] at seen
  obtain ⟨unused, alive, head, dead⟩ := seen
  refine ⟨twoOwners_unlinked, _, .tail (.tail (.single (.add ⟨rfl, by decide, by decide, rfl⟩ first))
    (.add ⟨unused, by decide, by decide, rfl⟩ second))
    (.kill (Set.mem_insert_of_mem 0x50 (Set.mem_insert 0x20 ∅)) ⟨.ready, alive, by decide⟩ killed), fun exact => ?_⟩
  obtain ⟨rest, -, members⟩ := exact.2 (by rw [head]; decide)
  obtain ⟨state, found, stays⟩ := ((members k₃.taskList).mp mem_cons_self).2
  rw [show RingLedger.kernel _ = k₃ from rfl, head] at found
  exact stays (Option.mem_unique found dead)

/-- Two tasks are added and the second is killed. -/
theorem killed_second_leaves_ring : ∃ l, ReflTransGen RingStep ⟨twoOwners, ∅⟩ l ∧ ¬ l.kernel.sched.Alive 0x50 ∧ l.Exact := by
  have run : (schedulerAdd (twoOwners.setTask 0x20 (plainTask 1 0x10)) 0x20 >>= fun k₁ =>
      schedulerAdd (k₁.setTask 0x50 (plainTask 2 0x40)) 0x50 >>= fun k₂ =>
      taskKill k₂ 0x50 >>= fun k₃ =>
      pure ((k₁.tasks 0x50).isNone, (k₂.tasks 0x50).map Task.state, (k₃.tasks k₃.taskList).map Task.state,
        (k₃.tasks 0x50).map Task.state)) =
      .ok (true, some .ready, some .ready, some .dead) := by
    decide +kernel
  obtain ⟨k₁, k₂, first, second, rest⟩ := of_bind₂ run
  obtain ⟨k₃, killed, seen⟩ := of_bind rest
  simp only [ok_pair, Prod.mk.injEq, Option.isNone_iff_eq_none] at seen
  obtain ⟨unused, alive, head, dead⟩ := seen
  have steps : ReflTransGen RingStep ⟨twoOwners, ∅⟩ ⟨k₃, insert 0x50 (insert 0x20 ∅)⟩ :=
    .tail (.tail (.single (.add ⟨rfl, by decide, by decide, rfl⟩ first)) (.add ⟨unused, by decide, by decide, rfl⟩ second))
      (.kill (Set.mem_insert 0x50 _) ⟨.ready, alive, by decide⟩ killed)
  refine ⟨_, steps, ?_, (ring_exact_iff_head_alive twoOwners_unlinked steps).mpr fun stale => ?_⟩
  · rintro ⟨state, found, stays⟩
    exact stays (Option.mem_unique found dead)
  · cases head.symm.trans stale

end Xos.Scheduler
