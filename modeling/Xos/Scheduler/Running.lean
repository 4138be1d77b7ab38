import Xos.Scheduler.Ring

/-!
# The running task

Even when `g_task_list` is stale only the current task runs. The idle task is never on the ring, so it can be neither
killed nor blocked.
-/
namespace Xos.Scheduler

open Lib Memory Relation Function Option

variable {s s' : Sched} {added : Set Nat}

structure Sched.Steady (s : Sched) (added : Set Nat) : Prop where
  closed : s.Closed added
  apart : s.idle ∉ added
  idle : s.state s.idle = some .ready ∨ s.state s.idle = some .running
  current : s.current ≠ 0
  one : ∀ t, s.state t = some .running → t = s.current

def SteadyStep (s s' : Sched) : Prop := ∃ act, SchedStep act s s' ∧ act ≠ .block s.idle

theorem Sched.Steady.switch_state {t : Nat} (steady : s.Steady added)
    (picked : s.state t = some .ready ∨ t = s.idle ∨ s.current = 0 ∧ t = s.head) : s.state t =
      some .ready ∨ s.state t = some .running := by
  rcases picked with ready | rfl | ⟨null, -⟩
  · exact .inl ready
  · exact steady.idle
  · exact absurd null steady.current

theorem Sched.Steady.dead_stays {act : Act} (steady : s.Steady added) (step : SchedStep act s s') {u : Nat}
    (dead : s.state u = some .dead) : s'.state u = some .dead := by
  refine step.dead_stays (fun t same => ?_) dead
  subst same
  cases step with
  | switch _ _ _ picked =>
    rcases steady.switch_state picked with ready | running
    · rw [ready]
      decide
    · rw [running]
      decide

theorem Sched.Steady.step {act : Act} (steady : s.Steady added) (step : SchedStep act s s') (allowed : act ≠ .block s.idle) :
    s'.Steady (act.grow added) := by
  have closed := steady.closed.step step
  have found : s.state s.idle ≠ none := by
    rcases steady.idle with ready | running
    · exact ready ▸ some_ne_none _
    · exact running ▸ some_ne_none _
  have apart : s.idle ∉ act.grow added := by
    rw [Act.mem_grow, not_or]
    refine ⟨?_, steady.apart⟩
    rintro rfl
    cases step with
    | addFirst fresh => exact found fresh
    | addLast fresh => exact found fresh
  -- a new state that is not `running`, at a task other than the idle one
  have idle {t : Nat} {state : TaskState} (other : s.idle ≠ t) :
      update s.state t (some state) s.idle = some .ready ∨
        update s.state t (some state) s.idle = some .running := by
    rw [update_of_ne other]
    exact steady.idle
  have one {t u : Nat} {state : TaskState} (stopped : state ≠ .running)
      (running : update s.state t (some state) u = some .running) : u = s.current := by
    by_cases same : u = t
    · rw [same, update_self, some.injEq] at running
      exact absurd running stopped
    · rw [update_of_ne same] at running
      exact steady.one u running
  cases step with
  | @wake _ t blocked =>
    refine ⟨closed, apart, idle ?_, steady.current, fun u => one (by decide)⟩
    rintro rfl
    rcases steady.idle with ready | running
    · cases blocked.symm.trans ready
    · cases blocked.symm.trans running
  | @block _ t state _ alive =>
    exact ⟨closed, apart, idle fun same => allowed (same ▸ rfl), steady.current, fun u => one (by decide)⟩
  | @kill _ t before after state _ prev next there =>
    refine ⟨closed, apart, idle ?_, steady.current, fun u => one (by decide)⟩
    rintro rfl
    exact steady.apart (steady.closed.killed prev there)
  | addFirst fresh =>
    exact ⟨closed, apart, idle fun same => found (same ▸ fresh), steady.current, fun u => one (by decide)⟩
  | addLast fresh =>
    exact ⟨closed, apart, idle fun same => found (same ▸ fresh), steady.current, fun u => one (by decide)⟩
  | @switch _ t null =>
    refine ⟨closed, apart, ?_, null, fun u running => ?_⟩
    · rw [Sched.switch_idle, Sched.switch_state]
      by_cases same : s.idle = t
      · rw [same, update_self]
        exact .inr rfl
      · rw [update_of_ne same]
        rcases s.stopped_cases s.idle with ⟨stays, -⟩ | ⟨-, -, stops⟩
        · exact stays ▸ steady.idle
        · exact .inl stops
    · by_contra differs
      rw [Sched.switch_state, update_of_ne (show u ≠ t from differs)] at running
      rcases s.stopped_cases u with ⟨stays, notRunning⟩ | ⟨-, -, stops⟩
      · rw [stays] at running
        have current := steady.one u running
        exact notRunning current (current ▸ steady.current) running
      · cases stops.symm.trans running

theorem Sched.Steady.run (steady : s.Steady added) (run : ReflTransGen SteadyStep s s') :
    (∃ added', s'.Steady added') ∧ ∀ u, s.state u = some .dead → s'.state u = some .dead := by
  refine invariant_of_run (fun s' => (∃ added', s'.Steady added') ∧ ∀ u, s.state u = some .dead → s'.state u = some .dead)
    ?_ run ⟨⟨added, steady⟩, fun _ dead => dead⟩
  rintro s₁ s₂ ⟨⟨added₁, steady₁⟩, stays⟩ ⟨act, step, allowed⟩
  exact ⟨⟨_, steady₁.step step allowed⟩, fun u dead => steady₁.dead_stays step (stays u dead)⟩

variable {k k' : Kernel}

theorem Cascade.steady (cascade : Cascade k k') : ReflTransGen SteadyStep k.sched k'.sched := by
  refine ReflTransGen.mono (fun s s' step => ?_) _ _ cascade.1
  rcases step with ⟨t, woken⟩ | ⟨t, -, killed⟩
  · exact ⟨_, woken, nofun⟩
  · exact ⟨_, killed, nofun⟩

/-- The scheduler runs, tasks are woken up, added and killed, and the current task blocks when it is not
the idle task. -/
inductive RunStep (k : Kernel) : Kernel → Prop
  | schedule {k' : Kernel} (returned : schedule k = .ok k') : RunStep k k'
  | setReady {k' : Kernel} {t : Nat} (returned : taskSetReady k t = .ok k') : RunStep k k'
  | setBlocked {k' : Kernel} (busy : k.currentTask ≠ k.idle) (returned : taskSetBlocked k k.currentTask = .ok k') :
      RunStep k k'
  | add {k' : Kernel} {t : Nat} {task : Task} (fresh : FreshTask k t task)
      (returned : schedulerAdd (k.setTask t task) t = .ok k') : RunStep k k'
  | kill {k' : Kernel} {t : Nat} (returned : taskKill k t = .ok k') : RunStep k k'
  | other {k' : Kernel} (unseen : k'.sched = k.sched) : RunStep k k'

theorem RunStep.steps (closed : k.sched.Closed added) (step : RunStep k k') : ReflTransGen SteadyStep k.sched k'.sched := by
  cases step with
  | schedule ret =>
    rcases (schedule_sched ret).1 with same | ⟨t, switched⟩
    · exact same ▸ .refl
    · exact .single ⟨_, switched, nofun⟩
  | setReady ret =>
    rcases (taskSetReady_sched ret).1 with same | woken
    · exact same ▸ .refl
    · exact .single ⟨_, woken, nofun⟩
  | setBlocked busy ret =>
    rcases (taskSetBlocked_sched ret).1 with same | blocked
    · exact same ▸ .refl
    · exact .single ⟨_, blocked, fun same => busy (Act.block.inj same)⟩
  | add fresh ret => exact .single ⟨_, (schedulerAdd_step closed fresh ret).1, nofun⟩
  | kill ret =>
    obtain ⟨mid, killed, -, cascade⟩ := taskKill_sched ret
    exact .head ⟨_, killed, nofun⟩ cascade.steady
  | other unseen => exact unseen ▸ .refl

theorem run_steady {start : Kernel} (steady : start.sched.Steady added) (run : ReflTransGen RunStep start k) :
    (∃ added', k.sched.Steady added') ∧ ∀ u, start.sched.state u = some .dead → k.sched.state u = some .dead := by
  refine invariant_of_run
    (fun k => (∃ added', k.sched.Steady added') ∧ ∀ u, start.sched.state u = some .dead → k.sched.state u = some .dead)
    ?_ run ⟨⟨added, steady⟩, fun _ dead => dead⟩
  rintro k₁ k₂ ⟨⟨added₁, steady₁⟩, stays⟩ step
  obtain ⟨kept, later⟩ := steady₁.run (step.steps steady₁.closed)
  exact ⟨kept, fun u dead => later u (stays u dead)⟩

/-- The current task runs and all others are ready; the links of the tasks `added` lead to each other,
and the idle task is not one of them. -/
structure Kernel.Settled (k : Kernel) (added : Set Nat) : Prop where
  closed : k.sched.Closed added
  apart : k.idle ∉ added
  idle : k.sched.state k.idle ≠ none
  running : k.sched.state k.currentTask = some .running
  ready : ∀ t state, t ≠ k.currentTask → k.sched.state t = some state → state = .ready

theorem Kernel.Settled.steady (settled : k.Settled added) : k.sched.Steady added := by
  refine ⟨settled.closed, settled.apart, ?_, fun null => ?_, fun t running => ?_⟩
  · obtain ⟨state, found⟩ := ne_none_iff_exists'.mp settled.idle
    by_cases current : k.idle = k.currentTask
    · exact .inr ((congrArg k.sched.state current).trans settled.running)
    · exact .inl (settled.ready _ state current found ▸ found)
  · have running := settled.running
    rw [show k.currentTask = 0 from null, settled.closed.null] at running
    cases running
  · by_contra other
    cases settled.ready t .running other running

/-- `schedule` switches to no task that is blocked or dead. -/
theorem Sched.Steady.switch_target (steady : k.sched.Steady added) (ret : schedule k = .ok k')
    (switched : k'.currentTask ≠ k.currentTask) :
    k.sched.state k'.currentTask ≠ some .blocked ∧ k.sched.state k'.currentTask ≠ some .dead := by
  rcases (schedule_sched ret).1 with same | ⟨t, step⟩
  · exact absurd (congrArg Sched.current same) switched
  · have target : k'.currentTask = t ∧ (k.sched.state t = some .ready ∨ k.sched.state t = some .running) := by
      generalize after : k'.sched = s' at step
      cases step with
      | switch _ _ _ picked => exact ⟨congrArg Sched.current after, steady.switch_state picked⟩
    rw [target.1]
    rcases target.2 with ready | running
    · rw [ready]
      decide
    · rw [running]
      decide

/-- In every state of every run only the current task runs, no dead task changes its state any more, and
`schedule` switches to no task that is blocked or dead. -/
theorem only_current_runs {start : Kernel} (settled : start.Settled added) (run : ReflTransGen RunStep start k) :
    (∀ t, k.sched.state t = some .running → t = k.currentTask) ∧
    (∀ k' t, ReflTransGen RunStep k k' → k.sched.state t = some .dead → k'.sched.state t = some .dead) ∧
    ∀ k', schedule k = .ok k' → k'.currentTask ≠ k.currentTask →
      k.sched.state k'.currentTask ≠ some .blocked ∧ k.sched.state k'.currentTask ≠ some .dead := by
  obtain ⟨⟨added', steady⟩, -⟩ := run_steady settled.steady run
  exact ⟨steady.one, fun k' t later => (run_steady steady later).2 t, fun k' => steady.switch_target⟩

def firstRuns : Kernel :=
  { twoOwners with
    tasks := fun t =>
      if t = 0x20 then some { plainTask 2 0x10 with state := .running, next := 0x50, prev := 0x50 }
      else if t = 0x50 then some { plainTask 3 0x40 with next := 0x20, prev := 0x20 }
      else if t = 0x30 then some (plainTask 1 0)
      else none
    currentTask := 0x20
    taskList := 0x20
    idle := 0x30
    schedulerRunning := true }

theorem firstRuns_settled : firstRuns.Settled {0x20, 0x50} := by
  have closed : firstRuns.sched.Closed {0x20, 0x50} := by
    refine ⟨rfl, rfl, .inr (.inl rfl), ?_, ?_, ?_, fun t outside => ?_⟩
    · rintro t (rfl | rfl) <;> exact some_ne_none _
    · rintro t (rfl | rfl)
      · exact ⟨0x50, .inr rfl, rfl⟩
      · exact ⟨0x20, .inl rfl, rfl⟩
    · rintro t (rfl | rfl)
      · exact ⟨0x50, .inr rfl, rfl⟩
      · exact ⟨0x20, .inl rfl, rfl⟩
    · rw [Set.mem_insert_iff, Set.mem_singleton_iff, not_or] at outside
      by_cases idle : t = 0x30
      · exact .inr (idle ▸ rfl)
      · simp [Kernel.sched, firstRuns, outside, idle]
  refine ⟨closed, by decide, some_ne_none _, rfl, fun t state other found => ?_⟩
  have notFirst : t ≠ 0x20 := other
  rw [Kernel.sched, map_eq_some_iff] at found
  obtain ⟨task, record, rfl⟩ := found
  simp only [firstRuns, if_neg notFirst] at record
  split at record
  · exact some.inj record ▸ rfl
  · split at record
    · exact some.inj record ▸ rfl
    · cases record

/-- The first task is killed while it runs, and stays dead. -/
theorem killed_first_stays_dead : ∃ k, ReflTransGen RunStep firstRuns k ∧ k.sched.state 0x20 = some .dead ∧
    (∀ t, k.sched.state t = some .running → t = k.currentTask) ∧
    ∀ k', ReflTransGen RunStep k k' → k'.sched.state 0x20 = some .dead := by
  have run : (taskKill firstRuns 0x20 >>= fun k₁ => schedule k₁ >>= fun k₂ => pure (k₂.sched.state 0x20)) =
      .ok (some .dead) := by
    decide +kernel
  obtain ⟨k₁, k₂, killed, switched, seen⟩ := Outcome.of_bind₂ run
  have dead := Except.ok.inj seen
  have steps : ReflTransGen RunStep firstRuns k₂ := (ReflTransGen.single (.kill killed)).tail (.schedule switched)
  obtain ⟨one, stays, -⟩ := only_current_runs firstRuns_settled steps
  exact ⟨k₂, steps, dead, one, fun k' later => stays k' 0x20 later dead⟩

end Xos.Scheduler
