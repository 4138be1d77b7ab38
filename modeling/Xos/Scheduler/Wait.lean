import Xos.Scheduler.Threads

/-!
# Waiting for a process (`process_wait`, `process_exit`)

If the wait comes first, the end of the process wakes the waiting task up. `process_wait` does not look whether the
process has ended already.
-/
namespace Xos.Scheduler

open Lib Memory Relation Outcome Function Kernel Option

/-- The task that waits, the process it waits for with its main task, and the number of the process. -/
structure Rendezvous where
  waiter : Nat
  child : Nat
  main : Nat
  pid : Nat

def Kernel.childView (k : Kernel) (r : Rendezvous) : Option (Nat × Nat × Nat) :=
  (k.processes r.child).map fun process => (process.mainTask, process.waitingTask, process.exitCode)

variable {k k' : Kernel} {r : Rendezvous} {t u : Nat}

/-- The waiting task is blocked as before, the main task is dead as before, and the record of the child
says the same. -/
structure Quiet (r : Rendezvous) (k k' : Kernel) : Prop where
  waiter : k'.sched.state r.waiter = some .blocked ↔ k.sched.state r.waiter = some .blocked
  main : k'.sched.state r.main = some .dead ↔ k.sched.state r.main = some .dead
  current : k.currentTask ≠ 0 → k'.currentTask ≠ 0
  idle : k'.idle = k.idle
  child : k'.childView r = k.childView r
  found : findProcess k' r.pid = findProcess k r.pid

theorem findProcess_congr (processes : k'.processes = k.processes) (first : k'.firstProcess = k.firstProcess) (pid : Nat) :
    findProcess k' pid = findProcess k pid := by
  have from_ (fuel p : Nat) : findProcessFrom k' pid fuel p = findProcessFrom k pid fuel p := by
    induction fuel generalizing p with
    | zero => rfl
    | succ fuel ih =>
      simp only [findProcessFrom, process, processes, ih]
  rw [findProcess, findProcess, first, from_]

theorem Frame.quiet (frame : Frame k k') (r : Rendezvous) : k'.childView r = k.childView r ∧
    findProcess k' r.pid = findProcess k r.pid :=
  ⟨by rw [childView, frame.processes, childView], findProcess_congr frame.processes frame.firstProcess r.pid⟩

theorem schedule_keeps (current : k.currentTask ≠ 0) (busy : u ≠ k.idle) (ret : schedule k = .ok k') :
    (k'.sched.state u = some .blocked ↔ k.sched.state u = some .blocked) ∧
      (k'.sched.state u = some .dead ↔ k.sched.state u = some .dead) := by
  rcases (schedule_sched ret).1 with same | ⟨t, step⟩
  · rw [same]
    exact ⟨Iff.rfl, Iff.rfl⟩
  · generalize k'.sched = after at step
    cases step with
    | switch _ _ _ picked =>
      rw [Sched.switch_state]
      by_cases target : u = t
      · subst target
        have ready : k.sched.state u = some .ready := by
          rcases picked with ready | idle | ⟨null, -⟩
          · exact ready
          · exact absurd idle busy
          · exact absurd null current
        simp [ready]
      · rw [update_of_ne target]
        rcases k.sched.stopped_cases u with ⟨stays, -⟩ | ⟨-, running, stops⟩
        · rw [stays]
          exact ⟨Iff.rfl, Iff.rfl⟩
        · simp [running, stops]

theorem schedule_current (current : k.currentTask ≠ 0) (ret : schedule k = .ok k') : k'.currentTask ≠ 0 ∧ k'.idle = k.idle := by
  rcases (schedule_sched ret).1 with same | ⟨t, step⟩
  · exact ⟨(congrArg Sched.current same).trans_ne current, congrArg Sched.idle same⟩
  · generalize after : k'.sched = s' at step
    cases step with
    | switch null => exact ⟨(congrArg Sched.current after).trans_ne null, congrArg Sched.idle after⟩

theorem schedule_quiet (current : k.currentTask ≠ 0) (waiter : r.waiter ≠ k.idle) (main : r.main ≠ k.idle)
    (ret : schedule k = .ok k') : Quiet r k k' := by
  obtain ⟨child, found⟩ := (schedule_sched ret).2.quiet r
  exact ⟨(schedule_keeps current waiter ret).1, (schedule_keeps current main ret).2,
    fun _ => (schedule_current current ret).1, (schedule_current current ret).2, child, found⟩

theorem setState_quiet {before after : TaskState} (frame : Frame k k') (other : t ≠ r.waiter)
    (found : k.sched.state t = some before) (alive : before ≠ .dead) (stays : after ≠ .dead)
    (res : k'.sched = k.sched.setState t after) : Quiet r k k' := by
  obtain ⟨child, process⟩ := frame.quiet r
  refine ⟨?_, ?_, fun current => (congrArg Sched.current res).trans_ne current, congrArg Sched.idle res, child, process⟩
  · rw [res, Sched.setState_state, update_of_ne other.symm]
  · rw [res, Sched.setState_state]
    by_cases same : r.main = t
    · rw [same, update_self, found]
      simp [alive, stays]
    · rw [update_of_ne same]

theorem Quiet.of_sched (unseen : k'.sched = k.sched) (child : k'.childView r = k.childView r)
    (found : findProcess k' r.pid = findProcess k r.pid) : Quiet r k k' := by
  refine ⟨?_, ?_, fun current => (congrArg Sched.current unseen).trans_ne current, congrArg Sched.idle unseen, child, found⟩
  · rw [unseen]
  · rw [unseen]

theorem taskSetReady_quiet (other : t ≠ r.waiter) (ret : taskSetReady k t = .ok k') : Quiet r k k' := by
  obtain ⟨same | step, frame⟩ := taskSetReady_sched ret
  · exact .of_sched same (frame.quiet r).1 (frame.quiet r).2
  · generalize res : k'.sched = s' at step
    cases step with
    | wake blocked => exact setState_quiet frame other blocked (by decide) (by decide) res

theorem taskSetBlocked_quiet (other : t ≠ r.waiter) (ret : taskSetBlocked k t = .ok k') : Quiet r k k' := by
  obtain ⟨same | step, frame⟩ := taskSetBlocked_sched ret
  · exact .of_sched same (frame.quiet r).1 (frame.quiet r).2
  · generalize res : k'.sched = s' at step
    cases step with
    | block found alive => exact setState_quiet frame other found alive (by decide) res

theorem taskSetBlocked_alive (alive : k.sched.state t ≠ some .dead) (ret : taskSetBlocked k t = .ok k') :
    k'.sched = k.sched.setState t .blocked := by
  obtain ⟨task, found, ret⟩ := of_task ret
  rw [sched_state found] at alive
  rw [if_pos fun dead => alive (congrArg some dead)] at ret
  obtain ⟨again, same, rfl⟩ := updateTask_eq_ok.mp ret
  exact sched_setState same .blocked

/-- `process_wait` of a process that nobody waits for: the current task is noted and blocked. -/
theorem processWait_blocks {process : Process} {waiting : Waiting} (found : findProcess k r.pid = .ok r.child)
    (nonnull : r.child ≠ 0) (record : k.processes r.child = some process) (free : process.waitingTask = 0)
    (ret : processWait k r.pid = .ok (k', waiting)) : waiting = .blocked r.child ∧ ∃ blocked,
      taskSetBlocked (k.setProcess r.child { process with waitingTask := k.currentTask }) k.currentTask = .ok blocked ∧
      schedule blocked = .ok k' := by
  rw [processWait, found, ok_bind, if_neg nonnull, process_eq_ok.mpr record, ok_bind,
    if_neg (not_not.mpr free)] at ret
  obtain ⟨noted, written, ret⟩ := of_bind ret
  obtain ⟨again, same, rfl⟩ := updateProcess_eq_ok.mp written
  obtain rfl : process = again := mem_unique record same
  obtain ⟨blocked, after, block, scheduled, ret⟩ := of_bind₂ ret
  obtain ⟨rfl, rfl⟩ := ok_inj ret
  exact ⟨rfl, blocked, block, scheduled⟩

theorem taskSetReady_woken (ret : taskSetReady k t = .ok k') : k'.sched.state t ≠ some .blocked := by
  obtain ⟨task, found, ret⟩ := of_task ret
  split at ret
  · obtain ⟨again, same, rfl⟩ := updateTask_eq_ok.mp ret
    rw [sched_setState same, Sched.setState_state, update_self]
    decide
  case isFalse busy =>
    obtain rfl : k = k' := Except.ok.inj ret
    rw [sched_state found]
    exact fun same => busy (some.inj same)

theorem processKill_wakes {p : Nat} {process : Process} (record : k.processes p = some process)
    (waits : process.waitingTask ≠ 0) (ret : processKill k p = .ok k') : k'.sched.state process.waitingTask ≠ some .blocked := by
  rw [processKill, show 2 ^ 64 = 2 ^ 64 - 1 + 1 from rfl] at ret
  obtain ⟨again, mid, -, loop, ret⟩ := of_bind₂ ret
  obtain ⟨closed, last, close, here, ret⟩ := of_bind₂ ret
  -- the record is the one from the start
  have same : closed.processes = k.processes :=
    (handleCloseAll_wakes close).2.processes.trans ((kill_cascade _).2.2 k mid _ loop).2.processes
  rw [process_eq_ok, same, record, some.injEq] at here
  subst here
  rw [if_pos waits] at ret
  exact taskSetReady_woken ret

/-- The kernel, how far the call of `process_wait` has come, the code that `process_exit` was called with,
and whether the wait began after that. -/
structure WaitLedger where
  kernel : Kernel
  waited : Option Waiting
  exited : Option Nat
  late : Bool

/-- The waiting task calls `process_wait` once and goes on when it runs again, a task of the child calls
`process_exit` once, and in between the scheduler runs, other tasks wait and are woken up. -/
inductive WaitStep (r : Rendezvous) (l : WaitLedger) : WaitLedger → Prop
  | wait {k' : Kernel} {waiting : Waiting} (first : l.waited = none) (calls : l.kernel.currentTask = r.waiter)
      (running : l.kernel.sched.state r.waiter = some .running)
      (returned : processWait l.kernel r.pid = .ok (k', waiting)) :
      WaitStep r l ⟨k', some waiting, l.exited, l.exited.isSome⟩
  | resume {k' : Kernel} {p code : Nat} (waits : l.waited = some (.blocked p)) (calls : l.kernel.currentTask = r.waiter)
      (running : l.kernel.sched.state r.waiter = some .running)
      (returned : processWaitResume l.kernel p = .ok (k', code)) :
      WaitStep r l ⟨k', some (.returned code), l.exited, l.late⟩
  | exit {k' : Kernel} {code : Nat} (first : l.exited = none)
      (calls : (l.kernel.tasks l.kernel.currentTask).map Task.owner = some r.child)
      (returned : processExit l.kernel code = .ok k') : WaitStep r l ⟨k', l.waited, some code, l.late⟩
  | schedule {k' : Kernel} (returned : schedule l.kernel = .ok k') : WaitStep r l ⟨k', l.waited, l.exited, l.late⟩
  | setReady {k' : Kernel} {t : Nat} (other : t ≠ r.waiter) (returned : taskSetReady l.kernel t = .ok k') :
      WaitStep r l ⟨k', l.waited, l.exited, l.late⟩
  | setBlocked {k' : Kernel} {t : Nat} (other : t ≠ r.waiter) (returned : taskSetBlocked l.kernel t = .ok k') :
      WaitStep r l ⟨k', l.waited, l.exited, l.late⟩
  | other {k' : Kernel} (unseen : k'.sched = l.kernel.sched) (child : k'.childView r = l.kernel.childView r)
      (found : findProcess k' r.pid = findProcess l.kernel r.pid) : WaitStep r l ⟨k', l.waited, l.exited, l.late⟩

/-- The child lives and nobody waits for it; the waiting task is another one, and neither is the idle
task. -/
structure Rendezvous.Opens (r : Rendezvous) (k : Kernel) : Prop where
  found : findProcess k r.pid = .ok r.child
  child : k.childView r = some (r.main, 0, 0)
  alive : k.sched.state r.main ≠ some .dead
  nonnull : r.child ≠ 0 ∧ r.waiter ≠ 0 ∧ r.main ≠ 0
  apart : r.waiter ≠ r.main
  busy : r.waiter ≠ k.idle ∧ r.main ≠ k.idle
  started : k.currentTask ≠ 0

/-- The waiting task is not blocked in the wait while the main task is dead, and the value that
`process_wait` returns is the code of the exit. -/
def WaitLedger.Meets (r : Rendezvous) (l : WaitLedger) : Prop :=
  ¬((∃ p, l.waited = some (.blocked p)) ∧ l.kernel.sched.state r.waiter = some .blocked ∧
    l.kernel.sched.state r.main = some .dead) ∧
  ∀ code, l.waited = some (.returned code) → l.exited = some code

inductive Phase (r : Rendezvous) : WaitLedger → Prop
  | apart {k : Kernel} (child : k.childView r = some (r.main, 0, 0)) (found : findProcess k r.pid = .ok r.child)
      (alive : k.sched.state r.main ≠ some .dead) : Phase r ⟨k, none, none, false⟩
  | waiting {k : Kernel} (child : k.childView r = some (r.main, r.waiter, 0)) (blocked : k.sched.state r.waiter = some .blocked)
      (alive : k.sched.state r.main ≠ some .dead) : Phase r ⟨k, some (.blocked r.child), none, false⟩
  | exited {k : Kernel} {code : Nat} (child : k.childView r = some (r.main, 0, 0)) (found : findProcess k r.pid = .ok r.child)
      (dead : k.sched.state r.main = some .dead) : Phase r ⟨k, none, some code, false⟩
  | woken {k : Kernel} {code : Nat} (child : k.childView r = some (r.main, r.waiter, 0))
      (ready : k.sched.state r.waiter ≠ some .blocked) : Phase r ⟨k, some (.blocked r.child), some code, false⟩
  | stuck {k : Kernel} {code : Nat} (blocked : k.sched.state r.waiter = some .blocked)
      (dead : k.sched.state r.main = some .dead) : Phase r ⟨k, some (.blocked r.child), some code, true⟩
  | returned {k : Kernel} {code : Nat} : Phase r ⟨k, some (.returned 0), some code, false⟩

private theorem Phase.quiet {l : WaitLedger} (phase : Phase r l) (quiet : Quiet r l.kernel k') :
    Phase r ⟨k', l.waited, l.exited, l.late⟩ := by
  cases phase with
  | apart child found alive =>
    exact .apart (quiet.child.trans child) (quiet.found.trans found) fun dead => alive (quiet.main.mp dead)
  | waiting child blocked alive =>
    exact .waiting (quiet.child.trans child) (quiet.waiter.mpr blocked) fun dead => alive (quiet.main.mp dead)
  | exited child found dead => exact .exited (quiet.child.trans child) (quiet.found.trans found) (quiet.main.mpr dead)
  | woken child ready => exact .woken (quiet.child.trans child) fun blocked => ready (quiet.waiter.mp blocked)
  | stuck blocked dead => exact .stuck (quiet.waiter.mpr blocked) (quiet.main.mpr dead)
  | returned => exact .returned

structure Rendezvous.Going (r : Rendezvous) (l : WaitLedger) : Prop where
  phase : Phase r l
  busy : r.waiter ≠ l.kernel.idle ∧ r.main ≠ l.kernel.idle
  started : l.kernel.currentTask ≠ 0

private theorem Rendezvous.Going.quiet {l : WaitLedger} (going : r.Going l) (quiet : Quiet r l.kernel k') :
    r.Going ⟨k', l.waited, l.exited, l.late⟩ :=
  ⟨going.phase.quiet quiet, quiet.idle ▸ going.busy, quiet.current going.started⟩

theorem childView_record {main waiting code : Nat} (child : k.childView r = some (main, waiting, code)) :
    ∃ process, k.processes r.child = some process ∧ process.mainTask = main ∧ process.waitingTask = waiting ∧
      process.exitCode = code := by
  obtain ⟨process, record, same⟩ := map_eq_some_iff.mp child
  obtain ⟨mainTask, rest⟩ := Prod.mk.inj same
  obtain ⟨waitingTask, exitCode⟩ := Prod.mk.inj rest
  exact ⟨process, record, mainTask, waitingTask, exitCode⟩

/-- The waiting task is noted in the record of the child and blocked, whether or not the main task is dead. -/
theorem wait_effect {waiting : Waiting} (nonnull : r.child ≠ 0 ∧ r.waiter ≠ 0 ∧ r.main ≠ 0) (apart : r.waiter ≠ r.main)
    (busy : r.waiter ≠ k.idle ∧ r.main ≠ k.idle) (child : k.childView r = some (r.main, 0, 0))
    (found : findProcess k r.pid = .ok r.child) (calls : k.currentTask = r.waiter)
    (running : k.sched.state r.waiter = some .running) (ret : processWait k r.pid = .ok (k', waiting)) :
    waiting = .blocked r.child ∧ k'.childView r = some (r.main, r.waiter, 0) ∧ k'.sched.state r.waiter = some .blocked ∧
      (k'.sched.state r.main = some .dead ↔ k.sched.state r.main = some .dead) ∧ k'.currentTask ≠ 0 ∧ k'.idle = k.idle := by
  obtain ⟨process, record, mainTask, free, code⟩ := childView_record child
  obtain ⟨res, mid, block, scheduled⟩ := processWait_blocks found nonnull.1 record free ret
  rw [calls] at block
  have frame := (taskSetBlocked_sched block).2
  have states : mid.sched = k.sched.setState r.waiter .blocked :=
    taskSetBlocked_alive (k := k.setProcess r.child _) (running.trans_ne (by decide)) block
  have current : mid.currentTask = r.waiter := (congrArg Sched.current states).trans calls
  have idle : mid.idle = k.idle := congrArg Sched.idle states
  have quiet : Quiet r mid k' :=
    schedule_quiet (current.trans_ne nonnull.2.1) (idle ▸ busy.1) (idle ▸ busy.2) scheduled
  refine ⟨res, quiet.child.trans ?_, quiet.waiter.mpr ?_, quiet.main.trans ?_, quiet.current (current.trans_ne nonnull.2.1),
    quiet.idle.trans idle⟩
  · rw [(frame.quiet r).1]
    simp [childView, mainTask, code]
  · rw [states, Sched.setState_state, update_self]
  · rw [states, Sched.setState_state, update_of_ne apart.symm]

theorem exit_effect {code waiting : Nat} (nonnull : r.child ≠ 0 ∧ r.waiter ≠ 0 ∧ r.main ≠ 0)
    (busy : r.waiter ≠ k.idle ∧ r.main ≠ k.idle) (started : k.currentTask ≠ 0)
    (child : k.childView r = some (r.main, waiting, 0)) (calls : (k.tasks k.currentTask).map Task.owner = some r.child)
    (ret : processExit k code = .ok k') : k'.childView r = some (r.main, waiting, 0) ∧ findProcess k' r.pid = findProcess k r.pid ∧
      k'.sched.state r.main = some .dead ∧ (waiting = r.waiter → k'.sched.state r.waiter ≠ some .blocked) ∧
      k'.currentTask ≠ 0 ∧ k'.idle = k.idle := by
  obtain ⟨process, record, mainTask, waits, -⟩ := childView_record child
  obtain ⟨task, mid, found, killed, scheduled⟩ := of_bind₂ ret
  rw [task_eq_ok] at found
  rw [found, map_some, some.injEq] at calls
  rw [calls] at killed
  have cascade := processKill_cascade killed
  obtain ⟨childKept, foundKept⟩ := cascade.2.quiet r
  obtain ⟨current, idle⟩ := cascade.current
  have quiet : Quiet r mid k' := schedule_quiet (current ▸ started) (idle ▸ busy.1) (idle ▸ busy.2) scheduled
  refine ⟨quiet.child.trans (childKept.trans child), quiet.found.trans foundKept, quiet.main.mpr ?_, fun same blocked => ?_,
    quiet.current (current ▸ started), quiet.idle.trans idle⟩
  · exact mainTask ▸ processKill_main_dead record (mainTask ▸ nonnull.2.2) killed
  · have noted : process.waitingTask = r.waiter := waits.trans same
    exact processKill_wakes record (noted ▸ nonnull.2.1) killed (noted ▸ quiet.waiter.mp blocked)

theorem WaitStep.going {l l' : WaitLedger} (nonnull : r.child ≠ 0 ∧ r.waiter ≠ 0 ∧ r.main ≠ 0)
    (apart : r.waiter ≠ r.main) (going : r.Going l) (step : WaitStep r l l') : r.Going l' := by
  obtain ⟨phase, busy, started⟩ := going
  cases step with
  | wait first calls running ret =>
    cases phase with
    | apart child found alive =>
      obtain ⟨rfl, child', blocked, main, current, idle⟩ :=
        wait_effect nonnull apart busy child found calls running ret
      exact ⟨.waiting child' blocked fun dead => alive (main.mp dead), idle ▸ busy, current⟩
    | exited child found dead =>
      obtain ⟨rfl, child', blocked, main, current, idle⟩ :=
        wait_effect nonnull apart busy child found calls running ret
      exact ⟨.stuck blocked (main.mpr dead), idle ▸ busy, current⟩
    | waiting | woken | stuck | returned => cases first
  | resume waits calls running ret =>
    cases phase with
    | apart | exited | returned => cases waits
    | waiting child blocked => cases blocked.symm.trans running
    | stuck blocked => cases blocked.symm.trans running
    | woken child ready =>
      obtain ⟨⟨process, record, rfl⟩, delete⟩ := processWaitResume_ok ret
      obtain ⟨-, tasks, rfl⟩ := processDelete_ok delete
      obtain ⟨process', record', -, -, code⟩ := childView_record child
      obtain rfl := Waiting.blocked.inj (some.inj waits)
      obtain rfl : process = process' := mem_unique record record'
      rw [code]
      exact ⟨.returned, busy, started⟩
  | exit first calls ret =>
    cases phase with
    | apart child found alive =>
      obtain ⟨child', found', dead, -, current, idle⟩ := exit_effect nonnull busy started child calls ret
      exact ⟨.exited child' (found'.trans found) dead, idle ▸ busy, current⟩
    | waiting child blocked alive =>
      obtain ⟨child', -, -, woken, current, idle⟩ := exit_effect nonnull busy started child calls ret
      exact ⟨.woken child' (woken rfl), idle ▸ busy, current⟩
    | exited | woken | stuck | returned => cases first
  | schedule ret => exact Rendezvous.Going.quiet ⟨phase, busy, started⟩ (schedule_quiet started busy.1 busy.2 ret)
  | setReady other ret => exact Rendezvous.Going.quiet ⟨phase, busy, started⟩ (taskSetReady_quiet other ret)
  | setBlocked other ret => exact Rendezvous.Going.quiet ⟨phase, busy, started⟩ (taskSetBlocked_quiet other ret)
  | other unseen child found => exact Rendezvous.Going.quiet ⟨phase, busy, started⟩ (.of_sched unseen child found)

/-- The two parties meet just when the wait did not begin after the exit, and the code is 0 if
`process_wait` has returned. -/
theorem wait_meets_exit_iff {l : WaitLedger} (opens : r.Opens k)
    (run : ReflTransGen (WaitStep r) ⟨k, none, none, false⟩ l) :
    l.Meets r ↔ l.late = false ∧ ∀ code, l.waited = some (.returned code) → l.exited = some 0 := by
  have going := invariant_of_run (r.Going ·) (fun _ _ => WaitStep.going opens.nonnull opens.apart) run
    ⟨.apart opens.child opens.found opens.alive, opens.busy, opens.started⟩
  rw [WaitLedger.Meets]
  cases going.phase with
  | apart child found alive => simp
  | waiting child blocked alive => simp [alive]
  | exited child found dead => simp
  | woken child ready => simp [ready]
  | stuck blocked dead => simp [blocked, dead]
  | returned => simp

def parentRuns : Kernel :=
  { (firstRuns.setProcess 0x10 { plainProcess 1 0x20 with next := 0x40 }).setProcess 0x40
      { plainProcess 2 0x50 with prev := 0x10, parentPid := 1 } with
    firstProcess := 0x10
    lastProcess := 0x40
    nextPid := 3 }

def parentAndChild : Rendezvous := ⟨0x20, 0x40, 0x50, 2⟩

theorem parentRuns_opens : parentAndChild.Opens parentRuns :=
  ⟨by decide +kernel, rfl, by decide, by decide, by decide, by decide, by decide⟩

theorem wait_then_exit (code : Nat) : ∃ k, ReflTransGen (WaitStep parentAndChild) ⟨parentRuns, none, none, false⟩
    ⟨k, some (.returned 0), some code, false⟩ := by
  have run : (processWait parentRuns 2 >>= fun (k₁, waiting) => processExit k₁ 0 >>= fun k₂ => processWaitResume k₂ 0x40 >>= fun (_, value) =>
      pure (decide (waiting = .blocked 0x40), (k₁.tasks k₁.currentTask).map Task.owner,
        decide (k₂.currentTask = 0x20) && decide (k₂.sched.state 0x20 = some .running), value)) =
      .ok (true, some 0x40, true, 0) := by
    decide +kernel
  obtain ⟨⟨k₁, waiting⟩, waits, rest⟩ := of_bind run
  obtain ⟨k₂, ⟨k₃, value⟩, exits, resumes, seen⟩ := of_bind₂ rest
  simp only [ok_pair, Prod.mk.injEq, Bool.and_eq_true, decide_eq_true_eq] at seen
  obtain ⟨rfl, owner, ⟨current, running⟩, rfl⟩ := seen
  have first : ReflTransGen (WaitStep parentAndChild) ⟨parentRuns, none, none, false⟩ ⟨k₁, some (.blocked 0x40), none, false⟩ :=
    .single (.wait rfl rfl rfl waits)
  have second : ReflTransGen (WaitStep parentAndChild) ⟨parentRuns, none, none, false⟩ ⟨k₂, some (.blocked 0x40), some code, false⟩ :=
    first.tail (.exit rfl owner exits)
  exact ⟨k₃, second.tail (.resume rfl current running resumes)⟩

/-- The child exits before the parent waits, and the parent stays blocked; or it exits with 7 after that,
and the parent is told 0. -/
theorem parent_misses_exit : parentAndChild.Opens parentRuns ∧
    (∃ l, ReflTransGen (WaitStep parentAndChild) ⟨parentRuns, none, none, false⟩ l ∧ l.exited = some 0 ∧ ¬l.Meets parentAndChild) ∧
    ∃ l, ReflTransGen (WaitStep parentAndChild) ⟨parentRuns, none, none, false⟩ l ∧ l.late = false ∧ ¬l.Meets parentAndChild := by
  have run : (schedule parentRuns >>= fun k₁ => processExit k₁ 0 >>= fun k₂ => processWait k₂ 2 >>= fun (k₃, waiting) =>
      pure ((k₁.tasks k₁.currentTask).map Task.owner, (k₂.currentTask, k₂.sched.state 0x20), waiting,
        k₃.sched.state 0x20, k₃.sched.state 0x50)) =
      .ok (some 0x40, (0x20, some .running), .blocked 0x40, some .blocked, some .dead) := by
    decide +kernel
  obtain ⟨k₁, k₂, switches, exits, rest⟩ := of_bind₂ run
  obtain ⟨⟨k₃, waiting⟩, waits, seen⟩ := of_bind rest
  simp only [ok_pair, Prod.mk.injEq] at seen
  obtain ⟨owner, ⟨current, running⟩, rfl, blocked, dead⟩ := seen
  refine ⟨parentRuns_opens, ⟨_, .tail (.tail (.single (.schedule switches)) (.exit rfl owner exits)) (.wait rfl current running waits),
    rfl, fun meets => meets.1 ⟨⟨0x40, rfl⟩, blocked, dead⟩⟩, ?_⟩
  obtain ⟨k, told⟩ := wait_then_exit 7
  refine ⟨_, told, rfl, fun meets => ?_⟩
  have same : 7 = 0 := some.inj (meets.2 0 rfl)
  cases same

/-- The parent waits first, and the child exits with 0. -/
theorem parent_meets_exit : ∃ l, ReflTransGen (WaitStep parentAndChild) ⟨parentRuns, none, none, false⟩ l ∧
    l.waited = some (.returned 0) ∧ l.Meets parentAndChild := by
  obtain ⟨k, told⟩ := wait_then_exit 0
  exact ⟨_, told, rfl, (wait_meets_exit_iff parentRuns_opens told).mpr ⟨rfl, fun _ _ => rfl⟩⟩

end Xos.Scheduler
