import Xos.Scheduler.Ring

/-!
# The choice of the next task (`scheduler_pick_next`)

Both loops of `scheduler_pick_next` walk along `next` until they are back at the task they started
from. On a whole ring they end, with the first task that is ready.
-/
namespace Xos.Scheduler

open Lib Relation Outcome List Kernel Option

variable {k k' : Kernel} {added : Set Nat} {t : Nat}

def Kernel.Leads (k : Kernel) (a b : Nat) : Prop := k.sched.next a = some b

theorem Kernel.Leads.record {u : Nat} (link : k.Leads t u) : ∃ task, k.tasks t = some task ∧ task.next = u :=
  map_eq_some_iff.mp link

def Scanned (k : Kernel) (tasks : List Nat) : Option Nat → Prop
  | some r => r ∈ tasks ∧ k.sched.state r = some .ready
  | none => ∀ u ∈ tasks, k.sched.state u ≠ some .ready

theorem Scanned.cons {tasks : List Nat} {found : Option Nat} (scanned : Scanned k tasks found)
    (waits : k.sched.state t ≠ some .ready) : Scanned k (t :: tasks) found := by
  cases found with
  | some r => exact ⟨mem_cons_of_mem t scanned.1, scanned.2⟩
  | none =>
    intro v mem
    rcases mem_cons.mp mem with rfl | mem
    · exact waits
    · exact scanned v mem

variable {last fuel : Nat} {between : List Nat} {task : Task}

theorem scanReady_succ (found : k.tasks t = some task)
    (more : ∃ res, (if task.next = last then .ok none else scanReady k last fuel task.next) = .ok res ∧
      Scanned k between res) : ∃ res, scanReady k last (fuel + 1) t = .ok res ∧ Scanned k (t :: between) res := by
  have state := sched_state found
  rw [scanReady, task_eq_ok.mpr found, ok_bind]
  by_cases ready : task.state = .ready
  · rw [if_pos ready]
    exact ⟨some t, rfl, mem_cons_self, ready ▸ state⟩
  · rw [if_neg ready]
    obtain ⟨res, later, scanned⟩ := more
    refine ⟨res, later, scanned.cons fun same => ?_⟩
    rw [state] at same
    exact ready (some.inj same)

theorem scanReady_chain (chain : (t :: between ++ [last]).IsChain k.Leads) (apart : last ∉ between)
    (enough : between.length < fuel) : ∃ found, scanReady k last fuel t = .ok found ∧ Scanned k (t :: between) found := by
  obtain ⟨fuel, rfl⟩ := Nat.exists_eq_add_one_of_ne_zero (Nat.ne_zero_of_lt enough)
  induction between generalizing t fuel with
  | nil =>
    obtain ⟨task, found, next⟩ := (isChain_pair.mp chain).record
    refine scanReady_succ found ⟨none, if_pos next, fun u mem => ?_⟩
    cases mem
  | cons u between ih =>
    obtain ⟨link, chain⟩ := isChain_cons_cons.mp chain
    obtain ⟨task, found, rfl⟩ := link.record
    obtain ⟨fuel, rfl⟩ := Nat.exists_eq_add_one_of_ne_zero (Nat.ne_zero_of_lt (Nat.lt_of_succ_lt_succ enough))
    obtain ⟨res, later, scanned⟩ :=
      ih chain (fun mem => apart (mem_cons_of_mem _ mem)) fuel (Nat.lt_of_succ_lt_succ enough)
    refine scanReady_succ found ⟨res, ?_, scanned⟩
    rw [if_neg fun same : task.next = last => apart (same ▸ mem_cons_self)]
    exact later

/-- The tasks that following `next` from `g_task_list` leads to. -/
def Kernel.OnRing (k : Kernel) (t : Nat) : Prop :=
  k.taskList ≠ 0 ∧ ReflTransGen k.Leads k.taskList t

/-- A ready task of the ring other than the current one is picked if there is one, otherwise the
current task if it can go on, otherwise the idle task. -/
def Kernel.Picks (k : Kernel) (r : Nat) : Prop :=
  let Other (t : Nat) := k.OnRing t ∧ t ≠ k.currentTask ∧ k.sched.state t = some .ready
  let GoesOn := k.sched.state k.currentTask = some .ready ∨ k.sched.state k.currentTask = some .running
  Other r ∨ (¬ ∃ t, Other t) ∧ (GoesOn ∧ r = k.currentTask ∨ ¬ GoesOn ∧ r = k.idle)

/-- The invariant of all runs: only the idle task and the tasks that have been added have records. -/
structure Tracked (s : Sched) (added : Set Nat) : Prop where
  ringed : s.Ringed added
  idle : s.state s.idle ≠ none
  apart : s.idle ∉ added
  records : ∀ t, s.state t ≠ none → t = s.idle ∨ t ∈ added
  current : s.current = 0 ∨ s.state s.current ≠ none
  addresses : ∀ t ∈ added, t < 2 ^ 64

theorem scan_ring {others : List Nat} (tracked : Tracked k.sched added)
    (ring : IsRing k.sched.next k.sched.prev t others) (members : ∀ u ∈ t :: others, u ∈ added)
    {start : Nat} (chain : (start :: between ++ [last]).IsChain k.Leads) (apart : last ∉ between)
    (shorter : between.length ≤ others.length) :
    ∃ found, scanReady k last (2 ^ 64) start = .ok found ∧ Scanned k (start :: between) found := by
  refine scanReady_chain chain apart ?_
  have length := length_le_of_nodup ring.nodup fun u mem => tracked.addresses u (members u mem)
  rw [length_cons] at length
  exact Nat.lt_of_le_of_lt shorter (Nat.lt_of_succ_le length)

theorem Tracked.currentRecord (tracked : Tracked k.sched added) (current : k.currentTask ≠ 0) :
    ∃ task, k.tasks k.currentTask = some task := by
  have record := tracked.current.resolve_left current
  cases found : k.tasks k.currentTask with
  | none => exact absurd (congrArg (Option.map _) found) record
  | some task => exact ⟨task, rfl⟩

theorem picks_empty (tracked : Tracked k.sched added) (none : k.taskList = 0) (nothing : added = ∅)
    (current : k.currentTask ≠ 0) : ∃ r, schedulerPickNext k = .ok r ∧ k.Picks r := by
  have record := tracked.current.resolve_left current
  have idle : k.currentTask = k.idle := by
    rcases tracked.records _ record with same | mem
    · exact same
    · rw [nothing] at mem
      exact mem.elim
  obtain ⟨task, found⟩ := tracked.currentRecord current
  refine ⟨k.idle, ?_, .inr ⟨fun ⟨t, onRing, _⟩ => onRing.1 none, ?_⟩⟩
  · rw [schedulerPickNext, if_neg current, task_eq_ok.mpr found, ok_bind, if_pos (.inl idle), if_pos none]
    rfl
  · rw [← idle]
    exact (em _).imp (⟨·, rfl⟩) (⟨·, rfl⟩)

theorem schedulerPickNext_current (current : k.currentTask ≠ 0) {res : Option Nat}
    (found : k.tasks k.currentTask = some task) (away : ¬(k.currentTask = k.idle ∨ task.state = .dead))
    (scanned : (if task.next = k.currentTask then pure none else scanReady k k.currentTask (2 ^ 64) task.next) = .ok res) :
    schedulerPickNext k =
      res.elim (if task.state = .ready ∨ task.state = .running then pure k.currentTask else pure k.idle) .ok := by
  rw [schedulerPickNext, if_neg current, task_eq_ok.mpr found, ok_bind, if_neg away]
  split at scanned
  next alone =>
    rw [if_pos alone, scanned]
    cases res <;> rfl
  next others =>
    rw [if_neg others, scanned]
    cases res <;> rfl

section WholeRing

variable {rest : List Nat} (tracked : Tracked k.sched added) (ring : IsRing k.sched.next k.sched.prev k.taskList rest)
  (members : ∀ u, u ∈ k.taskList :: rest ↔ u ∈ added ∧ k.sched.Alive u)
include tracked ring members

theorem onRing_iff : k.OnRing t ↔ t ∈ k.taskList :: rest := by
  have nonnull : k.taskList ≠ 0 := fun null =>
    tracked.ringed.closed.null_notMem (null ▸ ((members _).mp mem_cons_self).1)
  rw [← ring.reachable_iff]
  exact and_iff_right nonnull

section

variable (current : k.currentTask ≠ 0) (found : k.tasks k.currentTask = some task)
include current found

/-- The idle task is not on the ring and a killed task is not ready, so the loop from the head looks
at all tasks that can be picked. -/
theorem picks_from_head (away : k.currentTask = k.idle ∨ task.state = .dead) :
    ∃ r, schedulerPickNext k = .ok r ∧ k.Picks r := by
  have onRing {u : Nat} : k.OnRing u ↔ u ∈ k.taskList :: rest := onRing_iff tracked ring members
  have nonnull : k.taskList ≠ 0 := (onRing.mpr mem_cons_self).1
  have state := sched_state found
  obtain ⟨res, scanned, seen⟩ := scan_ring tracked ring (fun u mem => ((members u).mp mem).1)
    (ring.chain.imp fun _ _ link => link.1) (nodup_cons.mp ring.nodup).1 le_rfl
  rw [schedulerPickNext, if_neg current, task_eq_ok.mpr found, ok_bind, if_pos away, if_neg nonnull, scanned,
    ok_bind]
  cases res with
  | some r =>
    refine ⟨r, rfl, .inl ⟨onRing.mpr seen.1, ?_, seen.2⟩⟩
    rintro rfl
    rcases away with idle | dead
    · exact tracked.apart ((congrArg (· ∈ added) idle).mp ((members _).mp seen.1).1)
    · cases (dead ▸ state).symm.trans seen.2
  | none =>
    have others : ¬∃ u, k.OnRing u ∧ u ≠ k.currentTask ∧ k.sched.state u = some .ready := by
      rintro ⟨u, here, -, ready⟩
      exact seen u (onRing.mp here) ready
    refine ⟨k.idle, rfl, .inr ⟨others, ?_⟩⟩
    rcases away with idle | dead
    · rw [← idle]
      exact (em _).imp (⟨·, rfl⟩) (⟨·, rfl⟩)
    · refine .inr ⟨?_, rfl⟩
      rw [state, dead]
      decide

theorem picks_from_current (away : ¬(k.currentTask = k.idle ∨ task.state = .dead)) :
    ∃ r, schedulerPickNext k = .ok r ∧ k.Picks r := by
  have onRing {u : Nat} : k.OnRing u ↔ u ∈ k.taskList :: rest := onRing_iff tracked ring members
  have state := sched_state found
  have next := sched_next found
  obtain ⟨busy, alive⟩ := not_or.mp away
  have mem : k.currentTask ∈ k.taskList :: rest :=
    (members _).mpr ⟨(tracked.records _ (state ▸ some_ne_none _)).resolve_left busy, task.state, state, alive⟩
  obtain ⟨others, turned, same⟩ := ring.from_mem mem
  -- the loop looks at all other tasks of the ring
  obtain ⟨res, scanned, seen⟩ : ∃ res,
      (if task.next = k.currentTask then pure none else scanReady k k.currentTask (2 ^ 64) task.next) = .ok res ∧
        Scanned k others res := by
    cases others with
    | nil =>
      have back := (isChain_pair.mp turned.chain).1
      rw [if_pos (mem_unique next back)]
      exact ⟨none, rfl, nofun⟩
    | cons u others =>
      obtain ⟨link, chain⟩ := isChain_cons_cons.mp turned.chain
      obtain rfl : task.next = u := some.inj (next.symm.trans link.1)
      have apart := (nodup_cons.mp turned.nodup).1
      rw [if_neg fun same : task.next = k.currentTask => apart (same ▸ mem_cons_self)]
      exact scan_ring tracked turned (fun u inside => ((members u).mp ((same u).mp inside)).1)
        (chain.imp fun _ _ link => link.1) (fun inside => apart (mem_cons_of_mem _ inside)) (Nat.le_succ _)
  rw [schedulerPickNext_current current found away scanned]
  cases res with
  | some r =>
    refine ⟨r, rfl, .inl ⟨onRing.mpr ((same r).mp (mem_cons_of_mem _ seen.1)), ?_, seen.2⟩⟩
    rintro rfl
    exact (nodup_cons.mp turned.nodup).1 seen.1
  | none =>
    have none : ¬∃ u, k.OnRing u ∧ u ≠ k.currentTask ∧ k.sched.state u = some .ready := by
      rintro ⟨u, here, other, ready⟩
      exact seen u ((mem_cons.mp ((same u).mpr (onRing.mp here))).resolve_left other) ready
    have goesOn : (task.state = .ready ∨ task.state = .running) ↔
        (k.sched.state k.currentTask = some .ready ∨ k.sched.state k.currentTask = some .running) := by
      rw [state, some.injEq, some.injEq]
    by_cases on : task.state = .ready ∨ task.state = .running
    · exact ⟨k.currentTask, if_pos on, .inr ⟨none, .inl ⟨goesOn.mp on, rfl⟩⟩⟩
    · exact ⟨k.idle, if_neg on, .inr ⟨none, .inr ⟨fun goes => on (goesOn.mpr goes), rfl⟩⟩⟩

end

end WholeRing

/-- Where the head has not been killed, a task is picked as it should be. -/
theorem Tracked.picks (tracked : Tracked k.sched added) (head : k.sched.state k.taskList ≠ some .dead)
    (started : k.currentTask ≠ 0 ∨ k.sched.state k.taskList = some .ready) : ∃ r, schedulerPickNext k = .ok r ∧ k.Picks r := by
  rcases tracked.ringed.shape with ⟨none, nothing⟩ | ⟨mem, killed⟩ | ⟨rest, ring, members⟩
  · refine picks_empty tracked none nothing (started.resolve_right fun ready => ?_)
    rw [show k.taskList = 0 from none, tracked.ringed.closed.null] at ready
    cases ready
  · obtain ⟨state, found⟩ := ne_none_iff_exists'.mp (tracked.ringed.closed.record _ mem)
    exact absurd ⟨state, found, fun dead => head (dead ▸ found)⟩ killed
  · by_cases current : k.currentTask = 0
    · refine ⟨k.taskList, by rw [schedulerPickNext, if_pos current]; rfl, .inl ⟨?_, ?_, ?_⟩⟩
      · exact (onRing_iff tracked ring members).mpr mem_cons_self
      · rw [current]
        exact ((onRing_iff tracked ring members).mpr mem_cons_self).1
      · exact started.resolve_left fun nonnull => nonnull current
    · obtain ⟨task, found⟩ := tracked.currentRecord current
      by_cases away : k.currentTask = k.idle ∨ task.state = .dead
      · exact picks_from_head tracked ring members current found away
      · exact picks_from_current tracked ring members current found away

section Steps

variable {s s' : Sched} {act : Act}

/-- Every action keeps the invariant, when only tasks that are alive are killed and the first switch
does not go to a killed task. -/
theorem Tracked.step (tracked : Tracked s added) (step : SchedStep act s s') (kills : ∀ t, act = .kill t → s.Alive t)
    (first : ∀ t, act = .switch t → s.current = 0 → s.state s.head ≠ some .dead) (address : ∀ t, act = .add t → t < 2 ^ 64) :
    Tracked s' (act.grow added) := by
  have idle : s'.idle = s.idle := by cases step <;> rfl
  have kept {u : Nat} (found : s.state u ≠ none) : s'.state u ≠ none :=
    fun missing => found ((step.state_eq_none u).mp missing).1
  have switches : ∀ t ∈ added, act = .switch t → s.Alive t := by
    rintro t mem rfl
    cases step with
    | switch _ _ found picked =>
      rcases picked with ready | rfl | ⟨start, rfl⟩
      · exact ⟨.ready, ready, by decide⟩
      · exact absurd mem tracked.apart
      · obtain ⟨state, found⟩ := ne_none_iff_exists'.mp found
        exact ⟨state, found, fun dead => first _ rfl start (dead ▸ found)⟩
  refine ⟨tracked.ringed.step step kills switches, ?_, ?_, fun t found => ?_, ?_, fun t mem => ?_⟩
  · rw [idle]
    exact kept tracked.idle
  · rw [idle, Act.mem_grow, not_or]
    refine ⟨?_, tracked.apart⟩
    rintro rfl
    cases step with
    | addFirst fresh => exact tracked.idle fresh
    | addLast fresh => exact tracked.idle fresh
  · rw [idle, Act.mem_grow]
    by_cases new : act = .add t
    · exact .inr (.inl new)
    · exact (tracked.records t fun missing => found ((step.state_eq_none t).mpr ⟨missing, new⟩)).imp_right .inr
  · cases step with
    | switch => exact .inr (by simp)
    | _ => exact tracked.current.imp_right kept
  · exact (Act.mem_grow.mp mem).elim (address t) (tracked.addresses t)

theorem Tracked.cascade (tracked : Tracked s added) (run : ReflTransGen CascadeStep s s') : Tracked s' added :=
  Sched.cascade_rule (Tracked · added) (fun _ _ _ tracked woken => tracked.step woken nofun nofun nofun)
    (fun _ _ _ tracked alive killed => tracked.step killed (fun _ same => Act.kill.inj same ▸ alive) nofun nofun) run tracked

end Steps

/-- Tasks are created, killed once, woken up and blocked, and the scheduler runs. The head of the ring
has not been killed when the first task is picked. -/
inductive PickStep (k : Kernel) : Kernel → Prop
  | add {k' : Kernel} {t : Nat} {task : Task} (fresh : FreshTask k t task)
      (returned : schedulerAdd (k.setTask t task) t = .ok k') : PickStep k k'
  | kill {k' : Kernel} {t : Nat} (once : k.sched.state t ≠ some .dead) (returned : taskKill k t = .ok k') : PickStep k k'
  | setReady {k' : Kernel} {t : Nat} (returned : taskSetReady k t = .ok k') : PickStep k k'
  | setBlocked {k' : Kernel} {t : Nat} (returned : taskSetBlocked k t = .ok k') : PickStep k k'
  | schedule {k' : Kernel} (first : k.currentTask = 0 → k.sched.state k.taskList ≠ some .dead)
      (returned : schedule k = .ok k') : PickStep k k'
  | other {k' : Kernel} (unseen : k'.sched = k.sched) : PickStep k k'

private theorem PickStep.tracked (tracked : Tracked k.sched added) (step : PickStep k k') : ∃ added', Tracked k'.sched added' := by
  cases step with
  | @add t task fresh ret =>
    refine ⟨_, tracked.step (schedulerAdd_step tracked.ringed.closed fresh ret).1 nofun nofun fun u same => ?_⟩
    exact Act.add.inj same ▸ fresh.address
  | kill once ret =>
    obtain ⟨mid, killed, -, cascade⟩ := taskKill_sched ret
    have alive := Sched.alive_of_kill killed once
    exact ⟨added, (tracked.step killed (fun _ same => Act.kill.inj same ▸ alive) nofun nofun).cascade cascade.1⟩
  | setReady ret =>
    rcases (taskSetReady_sched ret).1 with same | woken
    · exact ⟨added, same ▸ tracked⟩
    · exact ⟨_, tracked.step woken nofun nofun nofun⟩
  | setBlocked ret =>
    rcases (taskSetBlocked_sched ret).1 with same | blocked
    · exact ⟨added, same ▸ tracked⟩
    · exact ⟨_, tracked.step blocked nofun nofun nofun⟩
  | schedule first ret =>
    rcases (schedule_sched ret).1 with same | ⟨t, switched⟩
    · exact ⟨added, same ▸ tracked⟩
    · exact ⟨_, tracked.step switched nofun (fun _ _ => first) nofun⟩
  | other unseen => exact ⟨added, unseen ▸ tracked⟩

/-- The kernel after `scheduler_init`, with the idle task at `t`. -/
structure Kernel.Boots (k : Kernel) (t : Nat) : Prop where
  noTasks : ∀ u, k.tasks u = none
  noList : k.taskList = 0
  noCurrent : k.currentTask = 0
  nonnull : t ≠ 0

private theorem Kernel.Boots.tracked (boots : k.Boots t) : Tracked (schedulerInit k t).sched ∅ := by
  have other {u : Nat} (differs : u ≠ t) : (schedulerInit k t).tasks u = none :=
    (Function.update_of_ne differs ..).trans (boots.noTasks u)
  have null := other boots.nonnull.symm
  have idle : (schedulerInit k t).tasks t = some _ := Function.update_self ..
  have closed : (schedulerInit k t).sched.Closed ∅ := by
    refine ⟨congrArg (Option.map _) null, congrArg (Option.map _) null, .inl boots.noList, nofun, nofun, nofun, fun u _ => ?_⟩
    by_cases same : u = t
    · exact .inr (same ▸ sched_prev idle)
    · exact .inl (congrArg (Option.map _) (other same))
  refine ⟨⟨closed, .inl ⟨boots.noList, rfl⟩⟩, ?_, nofun, fun u found => ?_, .inl boots.noCurrent, nofun⟩
  · exact (sched_state idle).trans_ne (Option.some_ne_none _)
  · by_contra! differs
    exact found (congrArg (Option.map _) (other differs.1))

/-- In every state that such a run from the start of the scheduler reaches, and in which the head of
the ring has not been killed, `scheduler_pick_next` returns the task it should. -/
theorem pickNext_on_whole_ring {boot : Kernel} (boots : boot.Boots t) (run : ReflTransGen PickStep (schedulerInit boot t) k)
    (head : k.sched.state k.taskList ≠ some .dead)
    (started : k.currentTask ≠ 0 ∨ k.sched.state k.taskList = some .ready) :
    ∃ r, schedulerPickNext k = .ok r ∧ k.Picks r := by
  obtain ⟨added, tracked⟩ := invariant_of_run (fun k => ∃ added, Tracked k.sched added)
    (fun _ _ ⟨_, tracked⟩ step => step.tracked tracked) run ⟨∅, boots.tracked⟩
  exact tracked.picks head started

theorem scanReady_diverges {u : Nat} {first second : Task} (atFirst : k.tasks t = some first)
    (atSecond : k.tasks u = some second) (leads : first.next = u) (loops : second.next = u) (apart : u ≠ last)
    (busy : first.state ≠ .ready ∧ second.state ≠ .ready) : scanReady k last fuel t = .error .diverges := by
  have around (fuel : Nat) : scanReady k last fuel u = .error .diverges := by
    induction fuel with
    | zero => rfl
    | succ fuel ih =>
      rw [scanReady, task_eq_ok.mpr atSecond, ok_bind, if_neg busy.2, loops, if_neg apart]
      exact ih
  cases fuel with
  | zero => rfl
  | succ fuel =>
    rw [scanReady, task_eq_ok.mpr atFirst, ok_bind, if_neg busy.1, leads, if_neg apart]
    exact around fuel

/-- Two processes whose tasks are yet to be created, on a kernel that has started. -/
def startedKernel : Kernel := { twoOwners with schedulerRunning := true }

theorem startedKernel_boots : startedKernel.Boots 0x30 := ⟨fun _ => rfl, rfl, rfl, by decide⟩

/-- The first task of the ring exits and the second one blocks: the timer then finds the idle task
running, and looks for a ready task without end. -/
theorem idle_scan_never_ends : startedKernel.Boots 0x30 ∧ ∃ k, ReflTransGen PickStep (schedulerInit startedKernel 0x30) k ∧
    schedulerPickNext k = .error .diverges := by
  have run : (schedulerAdd ((schedulerInit startedKernel 0x30).setTask 0x20 (plainTask 2 0x10)) 0x20 >>= fun k₁ =>
      schedulerAdd (k₁.setTask 0x50 (plainTask 3 0x40)) 0x50 >>= fun k₂ =>
      schedule k₂ >>= fun k₃ => taskKill k₃ 0x20 >>= fun k₄ => schedule k₄ >>= fun k₅ =>
      taskSetBlocked k₅ 0x50 >>= fun k₆ => schedule k₆ >>= fun k₇ =>
      pure ((k₁.tasks 0x50).isNone && k₂.sched.state k₂.taskList == some .ready && k₃.sched.state 0x20 == some .running &&
          k₄.currentTask == 0x20 && k₆.currentTask == 0x50,
        (k₇.currentTask, k₇.idle, k₇.taskList), k₇.tasks 0x20, (k₇.tasks 0x30).isSome && k₇.tasks 0x50 ==
          some { plainTask 3 0x40 with state := .blocked, next := 0x50, prev := 0x50 })) =
      .ok (true, (0x30, 0x30, 0x20), some { plainTask 2 0x10 with state := .dead, next := 0x50, prev := 0x50 }, true) := by
    decide +kernel
  obtain ⟨k₁, k₂, first, second, rest⟩ := of_bind₂ run
  obtain ⟨k₃, k₄, started, killed, rest⟩ := of_bind₂ rest
  obtain ⟨k₅, k₆, switched, blocked, rest⟩ := of_bind₂ rest
  obtain ⟨k₇, idles, seen⟩ := of_bind rest
  simp only [ok_pair, Prod.mk.injEq, Bool.and_eq_true, beq_iff_eq, Option.isNone_iff_eq_none,
    Option.isSome_iff_exists] at seen
  obtain ⟨⟨⟨⟨⟨unused, ready⟩, running⟩, atFirst⟩, atSecond⟩, ⟨current, idle, head⟩, dead, ⟨task, found⟩, loops⟩ := seen
  have steps : ReflTransGen PickStep (schedulerInit startedKernel 0x30) k₇ :=
    (ReflTransGen.single (.add (t := 0x20) ⟨rfl, by decide, by decide, rfl⟩ first)).tail
      (.add (t := 0x50) ⟨unused, by decide, by decide, rfl⟩ second) |>.tail
      (.schedule (fun _ => by rw [ready]; decide) started) |>.tail
      (.kill (by rw [running]; decide) killed) |>.tail
      (.schedule (fun null => by rw [atFirst] at null; cases null) switched) |>.tail
      (.setBlocked blocked) |>.tail
      (.schedule (fun null => by rw [atSecond] at null; cases null) idles)
  refine ⟨startedKernel_boots, k₇, steps, ?_⟩
  rw [schedulerPickNext, current, if_neg (by decide), task_eq_ok.mpr found, ok_bind, idle, if_pos (.inl rfl), head,
    if_neg (by decide), scanReady_diverges dead loops rfl rfl (by decide) ⟨by decide, by decide⟩]
  rfl

/-- While the first of two tasks runs, the second is picked. -/
theorem second_task_picked : ∃ k, ReflTransGen PickStep (schedulerInit startedKernel 0x30) k ∧ k.currentTask = 0x20 ∧
    ∃ r, schedulerPickNext k = .ok r ∧ k.Picks r := by
  have run : (schedulerAdd ((schedulerInit startedKernel 0x30).setTask 0x20 (plainTask 2 0x10)) 0x20 >>= fun k₁ =>
      schedulerAdd (k₁.setTask 0x50 (plainTask 3 0x40)) 0x50 >>= fun k₂ => schedule k₂ >>= fun k₃ =>
      pure ((k₁.tasks 0x50).isNone, k₂.sched.state k₂.taskList, k₃.sched.state k₃.taskList, k₃.currentTask)) =
      .ok (true, some .ready, some .running, 0x20) := by
    decide +kernel
  obtain ⟨k₁, k₂, first, second, rest⟩ := of_bind₂ run
  obtain ⟨k₃, started, seen⟩ := of_bind rest
  simp only [ok_pair, Prod.mk.injEq, Option.isNone_iff_eq_none] at seen
  obtain ⟨unused, ready, running, current⟩ := seen
  have steps : ReflTransGen PickStep (schedulerInit startedKernel 0x30) k₃ :=
    (ReflTransGen.single (.add (t := 0x20) ⟨rfl, by decide, by decide, rfl⟩ first)).tail
      (.add (t := 0x50) ⟨unused, by decide, by decide, rfl⟩ second) |>.tail
      (.schedule (fun _ => by rw [ready]; decide) started)
  exact ⟨k₃, steps, current, pickNext_on_whole_ring startedKernel_boots steps (by rw [running]; decide)
    (.inl (by rw [current]; decide))⟩

end Xos.Scheduler
