import Xos.Scheduler.Creation
import Xos.Scheduler.Running

/-!
# The threads of a process (`process_exit`, `process_kill`)

`process_kill` walks along `next_in_process`, which nothing ever writes: the walk ends at the main task, and the other
threads stay on the ring.
-/
namespace Xos.Scheduler

open Lib Memory Relation Outcome Function Kernel Option Except

variable {k k' : Kernel} {added : Set Nat} {t p : Nat}

def Kernel.kin (k : Kernel) (t : Nat) : Option (Nat × Nat) := (k.tasks t).map fun task => (task.owner, task.nextInProcess)

def Kernel.mainOf (k : Kernel) (p : Nat) : Option Nat := (k.processes p).map Process.mainTask

structure Kernel.Threaded (k : Kernel) : Prop where
  alone : ∀ t owner next, k.kin t = some (owner, next) → next = 0
  main : ∀ p t, k.mainOf p = some t → k.kin t = some (p, 0)

theorem Kernel.Threaded.congr (threaded : k.Threaded) (kin : k'.kin = k.kin) (mains : k'.mainOf = k.mainOf) : k'.Threaded :=
  ⟨kin ▸ threaded.alone, kin ▸ mains ▸ threaded.main⟩

theorem Frame.kin (frame : Frame k k') : k'.kin = k.kin ∧ k'.mainOf = k.mainOf := by
  constructor
  · funext t
    have same := congrArg (Option.map fun task : Task => (task.owner, task.nextInProcess)) (frame.tasks t)
    rwa [Option.map_map, Option.map_map] at same
  · funext p
    rw [mainOf, frame.processes, mainOf]

theorem Kernel.Threaded.frame (threaded : k.Threaded) (frame : Frame k k') : k'.Threaded :=
  threaded.congr frame.kin.1 frame.kin.2

def Spares (t : Nat) (s s' : Sched) : Prop := ∀ u, u ≠ t → s.Alive u → s'.Alive u

theorem Spares.trans {s s' s'' : Sched} (first : Spares t s s') (second : Spares t s' s'') : Spares t s s'' :=
  fun u other alive => second u other (first u other alive)

theorem Wakes.spares (wakes : Wakes k k') (t : Nat) : Spares t k.sched k'.sched := by
  intro u other alive
  refine invariant_of_run (Sched.Alive · u) (fun s s' alive step => ?_) wakes.1 alive
  obtain ⟨v, woken⟩ := step
  cases woken with
  | wake =>
    rw [Sched.alive_setState]
    split
    · decide
    · exact alive

def Chief (k : Kernel) (t : Nat) : Prop :=
  ∀ owner next main, k.kin t = some (owner, next) → k.mainOf owner = some main → main = t

private theorem Chief.frame (chief : Chief k t) (frame : Frame k k') : Chief k' t := by
  rw [Chief, frame.kin.1, frame.kin.2]
  exact chief

variable {fuel : Nat}

theorem killProcess_found (ret : killProcess fuel k p = .ok k') : ∃ process, k.processes p = some process := by
  cases fuel with
  | zero => cases ret
  | succ fuel =>
    obtain ⟨process, found, -⟩ := of_bind ret
    exact ⟨process, process_eq_ok.mp found⟩

theorem killThreads_null (ret : killThreads fuel k 0 = .ok k') : k = k' := by
  cases fuel with
  | zero => cases ret
  | succ fuel =>
    rw [killThreads, if_pos rfl] at ret
    exact ok.inj ret

/-- By induction on the depth of the calls. The walk has one task, and its owner leads back to it. -/
theorem kill_spares (fuel : Nat) : (∀ k k' t, k.Threaded → Chief k t → killTask fuel k t = .ok k' → Spares t k.sched k'.sched) ∧
    (∀ k k' p process, k.Threaded → k.processes p = some process → killProcess fuel k p = .ok k' →
      Spares process.mainTask k.sched k'.sched) ∧
    ∀ k k' t, k.Threaded → Chief k t → killThreads fuel k t = .ok k' → Spares t k.sched k'.sched := by
  induction fuel with
  | zero => exact ⟨nofun, nofun, nofun⟩
  | succ fuel ih =>
    obtain ⟨tasks, processes, threads⟩ := ih
    refine ⟨fun k k' t threaded chief ret => ?_, fun k k' p process threaded record ret => ?_,
      fun k k' t threaded chief ret => ?_⟩
    · obtain ⟨task, found, ret⟩ := of_updateTask ret
      obtain ⟨mid, removed, ret⟩ := of_bind ret
      obtain ⟨before, after, -, -, -, -, res, frame⟩ := schedulerRemove_sched removed
      have frame : Frame k mid := (Frame.setTask found _ _ _).trans frame
      have killed : Spares t k.sched mid.sched := by
        intro u other alive
        rw [res, sched_setState found]
        exact Sched.alive_setState.mpr (by rwa [if_neg other])
      refine killed.trans ?_
      obtain ⟨task, here, ret⟩ := of_task ret
      split at ret
      · obtain ⟨process, record⟩ := killProcess_found ret
        have same := chief.frame frame _ _ _ (congrArg (Option.map _) here) (congrArg (Option.map _) record)
        exact same ▸ processes mid k' task.owner process (threaded.frame frame) record ret
      · split at ret
        · exact (taskSetReady_wakes ret).spares t
        · exact Except.ok.inj ret ▸ fun u _ alive => alive
    · obtain ⟨again, same, ret⟩ := of_bind ret
      rw [process_eq_ok, record, Option.some.injEq] at same
      subst same
      obtain ⟨mid, loop, ret⟩ := of_bind ret
      have mainTask : k.mainOf p = some process.mainTask := congrArg (Option.map _) record
      refine (threads _ _ _ threaded (fun owner next main kin owned => ?_) loop).trans ((closing_wakes ret).spares _)
      -- the main task is owned by the process it was reached from
      rw [threaded.main p _ mainTask, Option.some.injEq, Prod.mk.injEq] at kin
      rw [← kin.1, mainTask, Option.some.injEq] at owned
      exact owned.symm
    · rw [killThreads] at ret
      split at ret
      · exact Except.ok.inj ret ▸ fun u _ alive => alive
      · obtain ⟨task, found, ret⟩ := of_task ret
        rw [threaded.alone t _ _ (congrArg (Option.map _) found)] at ret
        split at ret
        · obtain ⟨mid, killed, ret⟩ := of_bind ret
          exact killThreads_null ret ▸ tasks k mid t threaded chief killed
        · exact killThreads_null ret ▸ fun u _ alive => alive

theorem killThreads_dead (nonnull : t ≠ 0) (ret : killThreads fuel k t = .ok k') : k'.sched.state t = some .dead := by
  cases fuel with
  | zero => cases ret
  | succ fuel =>
    rw [killThreads, if_neg nonnull] at ret
    obtain ⟨task, found, ret⟩ := of_task ret
    obtain ⟨tasks, -, threads⟩ := kill_cascade fuel
    split at ret
    case isTrue =>
      obtain ⟨mid, killed, ret⟩ := of_bind ret
      obtain ⟨first, step, -, cascade⟩ := tasks k mid t killed
      have dead : first.sched.state t = some .dead := by
        generalize first.sched = after at step
        cases step with
        | kill => exact update_self ..
      exact (cascade.trans (threads mid k' _ ret)).dead_stays dead
    case isFalse dead =>
      refine (threads k k' _ ret).dead_stays ?_
      rw [sched_state found, not_not.mp dead]

theorem processKill_main_dead {process : Process} (record : k.processes p = some process) (nonnull : process.mainTask ≠ 0)
    (ret : processKill k p = .ok k') : k'.sched.state process.mainTask = some .dead := by
  rw [processKill, show 2 ^ 64 = 2 ^ 64 - 1 + 1 from rfl] at ret
  obtain ⟨again, same, ret⟩ := of_bind ret
  rw [process_eq_ok, record, some.injEq] at same
  subst same
  obtain ⟨mid, loop, ret⟩ := of_bind ret
  exact (closing_wakes ret).cascade.dead_stays (killThreads_dead nonnull loop)

structure FreshBlock (k : Kernel) (t : Nat) : Prop where
  unused : k.tasks t = none
  nonnull : t ≠ 0
  address : t < 2 ^ 64

/-- Processes are created and killed, threads are spawned and killed, the scheduler runs, tasks wait and
are woken up. Calls that end with `schedule` are two steps; what else happens does not change the
tasks the scheduler sees or whom they belong to. -/
inductive ThreadStep (k : Kernel) : Kernel → Prop
  | exec {k' : Kernel} {t p pid : Nat} {space : AddressSpace} {stdIn stdOut : Int} (fresh : FreshBlock k t)
      (unused : k.processes p = none) (returned : processExec k t p space stdIn stdOut = .ok (k', pid)) : ThreadStep k k'
  | spawn {k' : Kernel} {t : Nat} (fresh : FreshBlock k t) (returned : processSpawnThread k t = .ok k') : ThreadStep k k'
  | kill {k' : Kernel} {t : Nat} (returned : taskKill k t = .ok k') : ThreadStep k k'
  | killProcess {k' : Kernel} {p : Nat} (returned : processKill k p = .ok k') : ThreadStep k k'
  | schedule {k' : Kernel} (returned : schedule k = .ok k') : ThreadStep k k'
  | setReady {k' : Kernel} {t : Nat} (returned : taskSetReady k t = .ok k') : ThreadStep k k'
  | setBlocked {k' : Kernel} (busy : k.currentTask ≠ k.idle) (returned : taskSetBlocked k k.currentTask = .ok k') :
      ThreadStep k k'
  | other {k' : Kernel} (unseen : k'.sched = k.sched) (kin : k'.kin = k.kin) (mains : k'.mainOf = k.mainOf) : ThreadStep k k'

private theorem Enters.step (enters : Enters k t p k') (closed : k.sched.Closed added) (fresh : FreshBlock k t) :
    SchedStep (.add t) k.sched k'.sched ∧ k'.kin = update k.kin t (some (p, 0)) := by
  obtain ⟨base, task, sched, tasks, belongs, add⟩ := enters
  obtain ⟨step, frame⟩ := schedulerAdd_step (sched ▸ closed) ⟨tasks ▸ fresh.unused, fresh.nonnull, fresh.address, belongs.ready⟩ add
  refine ⟨sched ▸ step, frame.kin.1.trans ?_⟩
  funext u
  rw [kin, setTask_tasks, tasks]
  by_cases same : u = t
  · subst same
    simp [belongs.owner, belongs.alone]
  · simp [same, kin]

private theorem ThreadStep.steps (closed : k.sched.Closed added) (step : ThreadStep k k') :
    ReflTransGen SteadyStep k.sched k'.sched := by
  cases step with
  | exec fresh _ ret => exact .single ⟨_, ((processExec_enters ret).1.step closed fresh).1, nofun⟩
  | spawn fresh ret =>
    obtain ⟨p, -, enters, -⟩ := processSpawnThread_enters ret
    exact .single ⟨_, (enters.step closed fresh).1, nofun⟩
  | kill ret => exact RunStep.steps closed (.kill ret)
  | killProcess ret => exact (processKill_cascade ret).steady
  | schedule ret => exact RunStep.steps closed (.schedule ret)
  | setReady ret => exact RunStep.steps closed (.setReady ret)
  | setBlocked busy ret => exact RunStep.steps closed (.setBlocked busy ret)
  | other unseen => exact RunStep.steps closed (.other unseen)

theorem ThreadStep.threaded (closed : k.sched.Closed added) (threaded : k.Threaded) (step : ThreadStep k k') : k'.Threaded := by
  -- a new record takes the place of none
  have enters {t p : Nat} (fresh : FreshBlock k t) (kin : k'.kin = update k.kin t (some (p, 0))) :
      (∀ u owner next, k'.kin u = some (owner, next) → next = 0) ∧ ∀ u, k.kin u ≠ none → k'.kin u = k.kin u := by
    refine ⟨fun u owner next found => ?_, fun u found => ?_⟩
    · rw [kin] at found
      by_cases same : u = t
      · rw [same, update_self, some.injEq, Prod.mk.injEq] at found
        exact found.2.symm
      · rw [update_of_ne same] at found
        exact threaded.alone u owner next found
    · rw [kin, update_of_ne]
      rintro rfl
      exact found (congrArg (Option.map _) fresh.unused)
  cases step with
  | @exec t p _ _ _ _ fresh _ ret =>
    obtain ⟨enter, mains⟩ := processExec_enters ret
    have kin := (enter.step closed fresh).2
    obtain ⟨alone, old⟩ := enters fresh kin
    refine ⟨alone, fun q u main => ?_⟩
    replace main : (k'.processes q).map Process.mainTask = some u := main
    rw [mains] at main
    by_cases same : q = p
    · rw [same, update_self, some.injEq] at main
      rw [kin, ← main, same, update_self]
    · rw [update_of_ne same] at main
      have there := threaded.main q u main
      rw [old u (there ▸ some_ne_none _), there]
  | spawn fresh ret =>
    obtain ⟨p, -, enter, mains⟩ := processSpawnThread_enters ret
    obtain ⟨alone, old⟩ := enters fresh (enter.step closed fresh).2
    refine ⟨alone, fun q u main => ?_⟩
    have there := threaded.main q u ((mains q).symm.trans main)
    rw [old u (there ▸ some_ne_none _), there]
  | kill ret =>
    obtain ⟨mid, -, frame, cascade⟩ := taskKill_sched ret
    exact threaded.frame (frame.trans cascade.2)
  | killProcess ret => exact threaded.frame (processKill_cascade ret).2
  | schedule ret => exact threaded.frame (schedule_sched ret).2
  | setReady ret => exact threaded.frame (taskSetReady_sched ret).2
  | setBlocked _ ret => exact threaded.frame (taskSetBlocked_sched ret).2
  | other _ kin mains => exact threaded.congr kin mains

theorem run_threads {start : Kernel} (steady : start.sched.Steady added) (threaded : start.Threaded)
    (run : ReflTransGen ThreadStep start k) :
    ((∃ added', k.sched.Steady added') ∧ k.Threaded) ∧ ∀ u, start.sched.state u = some .dead → k.sched.state u = some .dead := by
  refine invariant_of_run (fun k => ((∃ added', k.sched.Steady added') ∧ k.Threaded) ∧
    ∀ u, start.sched.state u = some .dead → k.sched.state u = some .dead) ?_ run ⟨⟨⟨added, steady⟩, threaded⟩, fun _ dead => dead⟩
  rintro k₁ k₂ ⟨⟨⟨added₁, steady₁⟩, threaded₁⟩, stays⟩ step
  obtain ⟨kept, later⟩ := steady₁.run (step.steps steady₁.closed)
  exact ⟨⟨kept, step.threaded steady₁.closed threaded₁⟩, fun u dead => later u (stays u dead)⟩

def Kernel.Ended (k : Kernel) (p : Nat) : Prop :=
  (∀ t task, k.tasks t = some task → task.owner = p → task.state = .dead) ∧
    ∀ k₁ k₂ task, ReflTransGen ThreadStep k k₁ → schedule k₁ = .ok k₂ → k₂.currentTask ≠ k₁.currentTask →
      k.tasks k₂.currentTask = some task → task.owner ≠ p

/-- `process_kill` is applied to a process, or one of its tasks calls `process_exit`. -/
def Kernel.Ends (k : Kernel) (p : Nat) (k' : Kernel) : Prop :=
  processKill k p = .ok k' ∨ (k.tasks k.currentTask).map Task.owner = some p ∧ ∃ code, processExit k code = .ok k'

private theorem Kernel.Ends.killed (ends : k.Ends p k') : ∃ mid, processKill k p = .ok mid ∧ (mid = k' ∨ schedule mid = .ok k') := by
  rcases ends with killed | ⟨owner, code, exited⟩
  · exact ⟨k', killed, .inl rfl⟩
  · obtain ⟨task, mid, found, killed, scheduled⟩ := of_bind₂ exited
    rw [task_eq_ok] at found
    rw [found, Option.map_some, Option.some.injEq] at owner
    exact ⟨mid, owner ▸ killed, .inr scheduled⟩

theorem schedule_spares (ret : schedule k = .ok k') (t : Nat) : Spares t k.sched k'.sched := by
  intro u _ alive
  rcases (schedule_sched ret).1 with same | ⟨t, step⟩
  · exact same ▸ alive
  · generalize k'.sched = after at step
    cases step with
    | switch => exact Sched.alive_switch.mpr (.inr alive)

/-- Killing a process kills its main task and no other. -/
theorem Kernel.Ends.effect {process : Process} (ends : k.Ends p k') (steady : k.sched.Steady added)
    (threaded : k.Threaded) (record : k.processes p = some process) :
    Frame k k' ∧ ReflTransGen ThreadStep k k' ∧ k'.sched.state process.mainTask = some .dead ∧
      Spares process.mainTask k.sched k'.sched := by
  obtain ⟨mid, killed, rest⟩ := ends.killed
  have cascade := processKill_cascade killed
  have nonnull : process.mainTask ≠ 0 := fun null => by
    have kin := threaded.main p _ (congrArg (Option.map _) record)
    obtain ⟨task, found, -⟩ := Option.map_eq_some_iff.mp kin
    have state := sched_state found
    rw [null, steady.closed.null] at state
    cases state
  have dead := processKill_main_dead record nonnull killed
  have spares : Spares process.mainTask k.sched mid.sched := (kill_spares _).2.1 k mid p process threaded record killed
  rcases rest with rfl | scheduled
  · exact ⟨cascade.2, .single (.killProcess killed), dead, spares⟩
  · obtain ⟨⟨added', steady'⟩, -⟩ := steady.run cascade.steady
    refine ⟨cascade.2.trans (schedule_sched scheduled).2, (ReflTransGen.single (.killProcess killed)).tail (.schedule scheduled),
      ?_, spares.trans (schedule_spares scheduled _)⟩
    exact (steady'.run (RunStep.steps steady'.closed (.schedule scheduled))).2 _ dead

/-- A process has ended just when all of its tasks but the main task were dead before. -/
theorem process_ended_iff_threads_dead {start : Kernel} {process : Process} (settled : start.Settled added)
    (threaded : start.Threaded) (run : ReflTransGen ThreadStep start k) (record : k.processes p = some process)
    (ends : k.Ends p k') :
    k'.Ended p ↔ ∀ t task, k.tasks t = some task → task.owner = p → t ≠ process.mainTask → task.state = .dead := by
  obtain ⟨⟨⟨added', steady⟩, threaded'⟩, -⟩ := run_threads settled.steady threaded run
  obtain ⟨frame, later, mainDead, spares⟩ := ends.effect steady threaded' record
  obtain ⟨⟨⟨added'', steady'⟩, threaded''⟩, stays⟩ := run_threads steady threaded' later
  constructor
  · rintro ⟨allDead, -⟩ t task found owner other
    -- a thread that is alive is spared
    by_contra alive
    obtain ⟨state, found', notDead⟩ := spares t other ⟨task.state, sched_state found, alive⟩
    obtain ⟨after, here, rfl⟩ := Option.map_eq_some_iff.mp found'
    obtain ⟨before, there, same, -⟩ := frame.task here
    obtain rfl : task = before := Option.mem_unique found there
    exact notDead (allDead t after here (same.trans owner))
  · intro threadsDead
    have allDead : ∀ t task, k'.tasks t = some task → task.owner = p → k'.sched.state t = some .dead := by
      intro t task found owner
      by_cases main : t = process.mainTask
      · exact main ▸ mainDead
      · obtain ⟨before, there, same, -⟩ := frame.task found
        refine stays t ((sched_state there).trans ?_)
        rw [threadsDead t before there (same.symm.trans owner) main]
    refine ⟨fun t task found owner => ?_, fun k₁ k₂ task run' scheduled switched found owner => ?_⟩
    · exact Option.some.inj ((sched_state found).symm.trans (allDead t task found owner))
    · -- it is dead when the scheduler runs again, and a dead task is not switched to
      obtain ⟨⟨⟨added₁, steady₁⟩, -⟩, stays₁⟩ := run_threads steady' threaded'' run'
      have dead := stays₁ _ (allDead _ task found owner)
      exact (steady₁.switch_target scheduled switched).2 dead

def mainRuns : Kernel :=
  { emptyKernel.setProcess 0x10 (plainProcess 1 0x20) with
    tasks := fun t =>
      if t = 0x20 then some { plainTask 2 0x10 with state := .running, next := 0x20, prev := 0x20 }
      else if t = 0x30 then some (plainTask 1 0)
      else none
    currentTask := 0x20
    taskList := 0x20
    idle := 0x30
    schedulerRunning := true }

theorem mainRuns_record {task : Task} (found : mainRuns.tasks t = some task) :
    (t = 0x20 ∧ task.owner = 0x10 ∨ t = 0x30 ∧ task.owner = 0 ∧ task.state = .ready) ∧ task.nextInProcess = 0 := by
  unfold mainRuns at found
  dsimp only at found
  split at found
  next here => exact ⟨.inl ⟨here, some.inj found ▸ rfl⟩, some.inj found ▸ rfl⟩
  · split at found
    next here => exact ⟨.inr ⟨here, some.inj found ▸ ⟨rfl, rfl⟩⟩, some.inj found ▸ rfl⟩
    · cases found

theorem mainRuns_settled : mainRuns.Settled {0x20} := by
  have closed : mainRuns.sched.Closed {0x20} := by
    refine ⟨rfl, rfl, .inr rfl, ?_, ?_, ?_, fun t outside => ?_⟩
    · rintro t rfl
      exact some_ne_none _
    · rintro t rfl
      exact ⟨0x20, rfl, rfl⟩
    · rintro t rfl
      exact ⟨0x20, rfl, rfl⟩
    · by_cases idle : t = 0x30
      · exact .inr (idle ▸ rfl)
      · have other : t ≠ 0x20 := outside
        simp [sched, mainRuns, other, idle]
  refine ⟨closed, by decide, some_ne_none _, rfl, fun t state other found => ?_⟩
  obtain ⟨task, record, rfl⟩ := map_eq_some_iff.mp found
  rcases (mainRuns_record record).1 with ⟨same, -⟩ | ⟨-, -, ready⟩
  · exact absurd same other
  · exact ready

theorem mainRuns_threaded : mainRuns.Threaded := by
  refine ⟨fun t owner next found => ?_, fun p t main => ?_⟩
  · obtain ⟨task, record, same⟩ := map_eq_some_iff.mp found
    rw [← (Prod.mk.inj same).2, (mainRuns_record record).2]
  · obtain ⟨process, record, rfl⟩ := map_eq_some_iff.mp main
    by_cases same : p = 0x10
    · subst same
      obtain rfl : plainProcess 1 0x20 = process := some.inj record
      rfl
    · simp [mainRuns, emptyKernel, same] at record

/-- The main task spawns a thread and calls `process_exit`: the scheduler switches to the thread. -/
theorem thread_outlives_process : mainRuns.Settled {0x20} ∧ mainRuns.Threaded ∧ ∃ k k', ReflTransGen ThreadStep mainRuns k ∧
    k.Ends 0x10 k' ∧ k'.currentTask = 0x50 ∧ ¬k'.Ended 0x10 := by
  have run : (processSpawnThread mainRuns 0x50 >>= fun k => processExit k 0 >>= fun k' =>
      pure ((k.tasks k.currentTask).map Task.owner, k'.currentTask, (k'.tasks 0x50).map fun task => (task.owner, task.state))) =
      .ok (some 0x10, 0x50, some (0x10, .running)) := by
    decide +kernel
  obtain ⟨k, k', spawned, exited, seen⟩ := of_bind₂ run
  simp only [ok_pair, Prod.mk.injEq] at seen
  obtain ⟨owner, current, thread⟩ := seen
  refine ⟨mainRuns_settled, mainRuns_threaded, k, k', .single (.spawn ⟨rfl, by decide, by decide⟩ spawned),
    .inr ⟨owner, 0, exited⟩, current, fun ended => ?_⟩
  obtain ⟨task, found, same⟩ := Option.map_eq_some_iff.mp thread
  obtain ⟨owned, running⟩ := Prod.mk.inj same
  cases running.symm.trans (ended.1 0x50 task found owned)

/-- The thread is killed before the main task calls `process_exit`. -/
theorem process_ends_after_its_thread : ∃ k k', ReflTransGen ThreadStep mainRuns k ∧ (k.kin 0x50).isSome ∧ k.Ends 0x10 k' ∧
    k'.Ended 0x10 := by
  have run : (processSpawnThread mainRuns 0x50 >>= fun k₁ => taskKill k₁ 0x50 >>= fun k₂ => processExit k₂ 0 >>= fun _ =>
      pure ((k₂.tasks k₂.currentTask).map Task.owner, k₂.mainOf 0x10, k₂.sched.state 0x50)) =
      .ok (some 0x10, some 0x20, some .dead) := by
    decide +kernel
  obtain ⟨k₁, k₂, spawned, killed, rest⟩ := of_bind₂ run
  obtain ⟨k', exited, seen⟩ := of_bind rest
  simp only [ok_pair, Prod.mk.injEq] at seen
  obtain ⟨owner, main, dead⟩ := seen
  have fresh : FreshBlock mainRuns 0x50 := ⟨rfl, by decide, by decide⟩
  have steps : ReflTransGen ThreadStep mainRuns k₂ := (ReflTransGen.single (.spawn fresh spawned)).tail (.kill killed)
  obtain ⟨process, record, mainTask⟩ := Option.map_eq_some_iff.mp main
  have kin : k₂.kin = update mainRuns.kin 0x50 (some (0x10, 0)) := by
    obtain ⟨p, current, enters, -⟩ := processSpawnThread_enters spawned
    obtain rfl : 0x10 = p := Option.some.inj current
    obtain ⟨mid, -, frame, cascade⟩ := taskKill_sched killed
    exact (frame.trans cascade.2).kin.1.trans (enters.step mainRuns_settled.closed fresh).2
  refine ⟨k₂, k', steps, by simp [kin], .inr ⟨owner, 0, exited⟩,
    (process_ended_iff_threads_dead mainRuns_settled mainRuns_threaded steps record (.inr ⟨owner, 0, exited⟩)).mpr
      fun t task found owned other => ?_⟩
  by_cases thread : t = 0x50
  · exact Option.some.inj ((sched_state found).symm.trans (thread ▸ dead))
  · have old := congrFun kin t
    rw [update_of_ne thread, Kernel.kin, found] at old
    obtain ⟨before, there, same⟩ := Option.map_eq_some_iff.mp old.symm
    rcases (mainRuns_record there).1 with ⟨here, -⟩ | ⟨-, idle, -⟩
    · exact absurd here (mainTask ▸ other)
    · cases (idle.symm.trans (Prod.mk.inj same).1).trans owned

end Xos.Scheduler
