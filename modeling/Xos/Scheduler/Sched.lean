import Mathlib.Logic.Relation
import Xos.Scheduler.Processes

/-!
# What the scheduler sees of the kernel

Everything that the kernel does to the states of the tasks, the links between them and three pointers is one of five
actions.
-/
namespace Xos.Scheduler

open Memory Relation Outcome Kernel Function Except Option

/-- The states of the tasks, the links of the ring, and `g_task_list`, `g_current_task` and `g_idle`. -/
@[ext] structure Sched where
  state : Nat → Option TaskState
  next : Nat → Option Nat
  prev : Nat → Option Nat
  head : Nat
  current : Nat
  idle : Nat

namespace Sched

@[simps] def setState (s : Sched) (t : Nat) (state : TaskState) : Sched :=
  { s with state := update s.state t (some state) }

@[simps] def unlink (s : Sched) (before after : Nat) : Sched :=
  { s with next := update s.next before (some after), prev := update s.prev after (some before) }

@[simps] def insertFirst (s : Sched) (t : Nat) : Sched :=
  { s with
    state := update s.state t (some .ready)
    next := update s.next t (some t)
    prev := update s.prev t (some t)
    head := t }

/-- A new task goes behind `last`, which the head of the ring leads back to. -/
@[simps] def insertLast (s : Sched) (t last : Nat) : Sched :=
  { s with
    state := update s.state t (some .ready)
    next := update (update s.next t (some s.head)) last (some t)
    prev := update (update s.prev t (some last)) s.head (some t) }

def stopped (s : Sched) : Nat → Option TaskState :=
  if s.current ≠ 0 ∧ s.state s.current = some .running then update s.state s.current (some .ready) else s.state

theorem stopped_cases (s : Sched) (u : Nat) : s.stopped u = s.state u ∧ (u = s.current → u ≠ 0 → s.state u ≠ some .running) ∨
    u = s.current ∧ s.state u = some .running ∧ s.stopped u = some .ready := by
  unfold stopped
  split
  next running =>
    by_cases same : u = s.current
    · subst same
      exact .inr ⟨rfl, running.2, update_self ..⟩
    · exact .inl ⟨update_of_ne same .., fun current => absurd current same⟩
  next stays =>
    refine .inl ⟨rfl, ?_⟩
    rintro rfl nonnull running
    exact stays ⟨nonnull, running⟩

@[simps] def switch (s : Sched) (t : Nat) : Sched :=
  { s with state := update s.stopped t (some .running), current := t }

end Sched

inductive Act where
  | wake (t : Nat)
  | block (t : Nat)
  | kill (t : Nat)
  | add (t : Nat)
  | switch (t : Nat)
  deriving DecidableEq, Repr

/-- One action. Links that are followed lead to tasks; what is switched to is ready, the idle task, or
the head of the ring at the very first switch. -/
inductive SchedStep : Act → Sched → Sched → Prop
  | wake {s : Sched} {t : Nat} (blocked : s.state t = some .blocked) : SchedStep (.wake t) s (s.setState t .ready)
  | block {s : Sched} {t : Nat} {state : TaskState} (found : s.state t = some state) (alive : state ≠ .dead) :
      SchedStep (.block t) s (s.setState t .blocked)
  | kill {s : Sched} {t before after : Nat} {state : TaskState} (found : s.state t = some state)
      (prev : s.prev t = some before) (next : s.next t = some after) (there : s.next before ≠ none)
      (here : s.prev after ≠ none) : SchedStep (.kill t) s ((s.setState t .dead).unlink before after)
  | addFirst {s : Sched} {t : Nat} (fresh : s.state t = none) (null : t ≠ 0) (empty : s.head = 0) :
      SchedStep (.add t) s (s.insertFirst t)
  | addLast {s : Sched} {t last : Nat} (fresh : s.state t = none) (null : t ≠ 0) (head : s.head ≠ 0)
      (prev : s.prev s.head = some last) (there : s.next last ≠ none) : SchedStep (.add t) s (s.insertLast t last)
  | switch {s : Sched} {t : Nat} (null : t ≠ 0) (other : t ≠ s.current) (found : s.state t ≠ none)
      (picked : s.state t = some .ready ∨ t = s.idle ∨ s.current = 0 ∧ t = s.head) : SchedStep (.switch t) s (s.switch t)

theorem SchedStep.state_eq_none {act : Act} {s s' : Sched} (step : SchedStep act s s') (u : Nat) :
    s'.state u = none ↔ s.state u = none ∧ act ≠ .add u := by
  have updated {state : Nat → Option TaskState} {t : Nat} {new : TaskState} (found : state t ≠ none) :
      update state t (some new) u = none ↔ state u = none := by
    by_cases same : u = t
    · subst same
      simpa using found
    · rw [update_of_ne same]
  have inserted {state : Nat → Option TaskState} {t : Nat} {new : TaskState} :
      update state t (some new) u = none ↔ state u = none ∧ Act.add t ≠ .add u := by
    by_cases same : u = t
    · simp [same]
    · simp [same, Ne.symm same]
  cases step with
  | wake blocked => simpa using updated (blocked ▸ some_ne_none _)
  | block found => simpa using updated (found ▸ some_ne_none _)
  | kill found => simpa using updated (found ▸ some_ne_none _)
  | addFirst => exact inserted
  | addLast => exact inserted
  | @switch _ t null other found =>
    by_cases same : u = t
    · simpa [same] using found
    · rcases s.stopped_cases u with ⟨stays, -⟩ | ⟨-, running, stops⟩
      · simp [same, stays]
      · simp [same, running, stops]

/-- What `process_kill` does: tasks that are not dead are killed, and tasks are woken up. -/
def CascadeStep (s s' : Sched) : Prop :=
  (∃ t, SchedStep (.wake t) s s') ∨ ∃ t, s.state t ≠ some .dead ∧ SchedStep (.kill t) s s'

def Kernel.sched (k : Kernel) : Sched where
  state t := (k.tasks t).map Task.state
  next t := (k.tasks t).map Task.next
  prev t := (k.tasks t).map Task.prev
  head := k.taskList
  current := k.currentTask
  idle := k.idle

def Task.fixed (task : Task) : Task := { task with state := .ready, next := 0, prev := 0 }

structure Frame (k k' : Kernel) : Prop where
  tasks : ∀ t, (k'.tasks t).map Task.fixed = (k.tasks t).map Task.fixed
  processes : k'.processes = k.processes
  firstProcess : k'.firstProcess = k.firstProcess
  lastProcess : k'.lastProcess = k.lastProcess
  nextPid : k'.nextPid = k.nextPid
  running : k'.schedulerRunning = k.schedulerRunning

theorem Frame.refl (k : Kernel) : Frame k k := ⟨fun _ => rfl, rfl, rfl, rfl, rfl, rfl⟩

variable {k'' : Kernel}

theorem Frame.trans {k k' : Kernel} (first : Frame k k') (second : Frame k' k'') : Frame k k'' :=
  ⟨fun t => (second.tasks t).trans (first.tasks t), second.processes.trans first.processes,
    second.firstProcess.trans first.firstProcess, second.lastProcess.trans first.lastProcess,
    second.nextPid.trans first.nextPid, second.running.trans first.running⟩

theorem Frame.head (k : Kernel) (t : Nat) : Frame k { k with taskList := t } := ⟨fun _ => rfl, rfl, rfl, rfl, rfl, rfl⟩

theorem Frame.current (k : Kernel) (t : Nat) : Frame k { k with currentTask := t } := ⟨fun _ => rfl, rfl, rfl, rfl, rfl, rfl⟩

theorem Frame.task {k k' : Kernel} {t : Nat} {task' : Task} (frame : Frame k k') (found : k'.tasks t = some task') :
    ∃ task, k.tasks t = some task ∧ task'.owner = task.owner ∧ task'.nextInProcess = task.nextInProcess := by
  have same := frame.tasks t
  rw [found] at same
  cases record : k.tasks t with
  | none =>
    rw [record] at same
    cases same
  | some task =>
    rw [record] at same
    have owner := congrArg Task.owner (some.inj same)
    have successor := congrArg Task.nextInProcess (some.inj same)
    exact ⟨task, rfl, owner, successor⟩

section Writes

variable {k : Kernel} {t : Nat} {task : Task}

theorem Kernel.sched_setTask (k : Kernel) (t : Nat) (task : Task) : (k.setTask t task).sched = { k.sched with
      state := update k.sched.state t (some task.state)
      next := update k.sched.next t (some task.next)
      prev := update k.sched.prev t (some task.prev) } := by
  have views {β : Type} (view : Task → β) : (fun u => ((k.setTask t task).tasks u).map view) =
      update (fun u => (k.tasks u).map view) t (some (view task)) := by
    funext u
    by_cases same : u = t
    · subst same
      simp
    · simp [same]
  exact Sched.ext (views Task.state) (views Task.next) (views Task.prev) rfl rfl rfl

theorem Kernel.setTask_setTask (k : Kernel) (t : Nat) (first second : Task) :
    (k.setTask t first).setTask t second = k.setTask t second := by
  simp only [setTask, update_idem]

theorem Frame.setTask (found : k.tasks t = some task) (state : TaskState) (next prev : Nat) :
    Frame k (k.setTask t { task with state := state, next := next, prev := prev }) := by
  refine ⟨fun u => ?_, rfl, rfl, rfl, rfl, rfl⟩
  by_cases here : u = t
  · subst here
    simp [found, Task.fixed]
  · simp [here]

theorem update_view {β : Type} (found : k.tasks t = some task) (view : Task → β) :
    update (fun u => (k.tasks u).map view) t (some (view task)) = fun u => (k.tasks u).map view := by
  rw [update_eq_self_iff, found]
  rfl

section

variable (found : k.tasks t = some task)
include found

theorem Kernel.sched_setState (state : TaskState) : (k.setTask t { task with state := state }).sched = k.sched.setState t state := by
  rw [sched_setTask]
  exact Sched.ext rfl (update_view found Task.next) (update_view found Task.prev) rfl rfl rfl

theorem Kernel.sched_setNext (next : Nat) :
    (k.setTask t { task with next := next }).sched = { k.sched with next := update k.sched.next t (some next) } := by
  rw [sched_setTask]
  exact Sched.ext (update_view found Task.state) rfl (update_view found Task.prev) rfl rfl rfl

theorem Kernel.sched_setPrev (prev : Nat) :
    (k.setTask t { task with prev := prev }).sched = { k.sched with prev := update k.sched.prev t (some prev) } := by
  rw [sched_setTask]
  exact Sched.ext (update_view found Task.state) (update_view found Task.next) rfl rfl rfl rfl

theorem Kernel.sched_state : k.sched.state t = some task.state := congrArg (Option.map _) found

theorem Kernel.sched_next : k.sched.next t = some task.next := congrArg (Option.map _) found

theorem Kernel.sched_prev : k.sched.prev t = some task.prev := congrArg (Option.map _) found

end

end Writes

section Functions

variable {k k' : Kernel} {t : Nat}

theorem updateTask_state {task : Task} {state : TaskState} (found : k.tasks t = some task)
    (ret : k.updateTask t (fun task => { task with state := state }) = .ok k') : k'.sched = k.sched.setState t state ∧ Frame k k' := by
  obtain ⟨again, same, rfl⟩ := updateTask_eq_ok.mp ret
  obtain rfl : task = again := mem_unique found same
  exact ⟨sched_setState found state, .setTask found _ _ _⟩

theorem taskSetReady_sched (ret : taskSetReady k t = .ok k') :
    (k'.sched = k.sched ∨ SchedStep (.wake t) k.sched k'.sched) ∧ Frame k k' := by
  obtain ⟨task, found, ret⟩ := of_task ret
  split at ret
  case isTrue blocked =>
    obtain ⟨written, frame⟩ := updateTask_state found ret
    rw [written]
    exact ⟨.inr (.wake (blocked ▸ sched_state found)), frame⟩
  case isFalse =>
    obtain rfl : k = k' := ok.inj ret
    exact ⟨.inl rfl, .refl k⟩

theorem taskSetBlocked_sched (ret : taskSetBlocked k t = .ok k') :
    (k'.sched = k.sched ∨ SchedStep (.block t) k.sched k'.sched) ∧ Frame k k' := by
  obtain ⟨task, found, ret⟩ := of_task ret
  split at ret
  case isTrue alive =>
    obtain ⟨written, frame⟩ := updateTask_state found ret
    rw [written]
    exact ⟨.inr (.block (sched_state found) alive), frame⟩
  case isFalse =>
    obtain rfl : k = k' := ok.inj ret
    exact ⟨.inl rfl, .refl k⟩

/-- The first write of `scheduler_remove` may be to the task itself, but not to the link that the
second one reads. -/
theorem schedulerRemove_sched (ret : schedulerRemove k t = .ok k') :
    ∃ before after, k.sched.prev t = some before ∧ k.sched.next t = some after ∧ k.sched.next before ≠ none ∧
      k.sched.prev after ≠ none ∧ k'.sched = k.sched.unlink before after ∧ Frame k k' := by
  obtain ⟨task, found, ret⟩ := of_task ret
  obtain ⟨before, there, ret⟩ := of_updateTask ret
  obtain ⟨again, foundAgain, ret⟩ := of_task ret
  obtain ⟨after, here, rfl⟩ := updateTask_eq_ok.mp ret
  have sameLinks : again.next = task.next ∧ again.prev = task.prev := by
    by_cases self : t = task.prev
    · rw [setTask_tasks, ← self, update_self, some.injEq] at foundAgain
      rw [← self, found, some.injEq] at there
      exact ⟨foundAgain ▸ rfl, foundAgain ▸ there ▸ rfl⟩
    · rw [setTask_tasks, update_of_ne self, found, some.injEq] at foundAgain
      exact ⟨foundAgain ▸ rfl, foundAgain ▸ rfl⟩
  rw [sameLinks.1, sameLinks.2]
  rw [sameLinks.1] at here
  have existed : k.sched.prev task.next ≠ none := by
    intro missing
    rw [sched, map_eq_none_iff] at missing
    rw [setTask_tasks] at here
    by_cases self : task.next = task.prev
    · rw [self, there] at missing
      cases missing
    · rw [update_of_ne self, missing] at here
      cases here
  refine ⟨task.prev, task.next, sched_prev found, sched_next found, ?_, existed, ?_,
    (Frame.setTask there _ _ _).trans (Frame.setTask here _ _ _)⟩
  · rw [sched_next there]
    exact some_ne_none _
  · rw [sched_setPrev here, sched_setNext there]
    rfl

/-- A new record that is added to the ring. No link leads to it before. -/
theorem schedulerAdd_sched {task : Task} (fresh : k.tasks t = none) (null : t ≠ 0) (ready : task.state = .ready)
    (head : k.taskList ≠ t) (unlinked : k.sched.prev k.taskList ≠ some t) (ret : schedulerAdd (k.setTask t task) t = .ok k') :
    SchedStep (.add t) k.sched k'.sched ∧ Frame (k.setTask t task) k' := by
  have freshState : k.sched.state t = none := congrArg (Option.map _) fresh
  have found : (k.setTask t task).tasks t = some task := update_self ..
  rw [schedulerAdd, setTask_taskList] at ret
  split at ret
  case isTrue empty =>
    obtain ⟨again, same, rfl⟩ := updateTask_eq_ok.mp ret
    obtain rfl : task = again := mem_unique found same
    refine ⟨?_, (Frame.head (k.setTask t task) t).trans (Frame.setTask same _ _ _)⟩
    have after : (setTask { k.setTask t task with taskList := t } t { task with next := t, prev := t }).sched =
        k.sched.insertFirst t := by
      have once : setTask { k.setTask t task with taskList := t } t { task with next := t, prev := t } =
          setTask { k with taskList := t } t { task with next := t, prev := t } :=
        setTask_setTask { k with taskList := t } t task _
      rw [once, sched_setTask]
      rw [ready]
      rfl
    rw [after]
    exact .addFirst freshState null empty
  case isFalse full =>
    obtain ⟨first, mid, atHead, written, ret⟩ := of_bind₂ ret
    obtain ⟨again, same, rfl⟩ := updateTask_eq_ok.mp written
    obtain rfl : task = again := mem_unique found same
    rw [task_eq_ok, setTask_tasks, update_of_ne head] at atHead
    rw [setTask_setTask, setTask_taskList] at ret
    obtain ⟨firstAgain, atHeadAgain, ret⟩ := of_bind ret
    rw [task_eq_ok, setTask_tasks, update_of_ne head, atHead, some.injEq] at atHeadAgain
    subst firstAgain
    obtain ⟨last, atLast, ret⟩ := of_updateTask ret
    obtain ⟨headTask, atHeadThen, rfl⟩ := updateTask_eq_ok.mp ret
    have back : k.sched.prev k.taskList = some first.prev := sched_prev atHead
    have other : first.prev ≠ t := fun same => unlinked (back.trans (congrArg some same))
    have there : k.tasks first.prev = some last := (update_of_ne other ..).symm.trans atLast
    refine ⟨?_, (?_ : Frame _ _).trans ((Frame.setTask atLast _ _ _).trans (Frame.setTask atHeadThen _ _ _))⟩
    · have after : k.sched.insertLast t first.prev = { k.sched with
          state := update k.sched.state t (some task.state)
          next := update (update k.sched.next t (some k.taskList)) first.prev (some t)
          prev := update (update k.sched.prev t (some first.prev)) k.taskList (some t) } := by
        rw [ready]
        rfl
      rw [sched_setPrev atHeadThen, sched_setNext atLast, sched_setTask]
      refine (after ▸ SchedStep.addLast freshState null full back ?_ : _)
      rw [sched_next there]
      exact some_ne_none _
    · have again := Frame.setTask found task.state k.taskList first.prev
      rwa [setTask_setTask] at again

theorem scanReady_ready {last fuel r : Nat} (ret : scanReady k last fuel t = .ok (some r)) : k.sched.state r = some .ready := by
  induction fuel generalizing t with
  | zero => cases ret
  | succ fuel ih =>
    obtain ⟨task, found, ret⟩ := of_task ret
    split at ret
    case isTrue ready =>
      obtain rfl : t = r := some.inj (ok.inj ret)
      exact ready ▸ sched_state found
    case isFalse =>
      split at ret
      · cases ret
      · exact ih ret

/-- The current task is only picked when it can go on. -/
theorem schedulerPickNext_picked {r : Nat} (ret : schedulerPickNext k = .ok r) :
    (r = k.currentTask ∧ k.sched.state r = some .running) ∨
      k.sched.state r = some .ready ∨ r = k.idle ∨ k.currentTask = 0 ∧ r = k.taskList := by
  rw [schedulerPickNext] at ret
  split at ret
  case isTrue first => exact .inr (.inr (.inr ⟨first, (ok.inj ret).symm⟩))
  obtain ⟨current, atCurrent, ret⟩ := of_bind ret
  split at ret
  · split at ret
    · exact .inr (.inr (.inl (ok.inj ret).symm))
    · obtain ⟨found, scanned, ret⟩ := of_bind ret
      cases found with
      | none => exact .inr (.inr (.inl (ok.inj ret).symm))
      | some u => exact .inr (.inl (ok.inj ret ▸ scanReady_ready scanned))
  · have fallback {r : Nat} (ret : (if current.state = .ready ∨ current.state = .running then pure k.currentTask
        else pure k.idle : Outcome Nat) = .ok r) : (r = k.currentTask ∧ k.sched.state r = some .running) ∨
          k.sched.state r = some .ready ∨ r = k.idle ∨ k.currentTask = 0 ∧ r = k.taskList := by
      have state := sched_state (task_eq_ok.mp atCurrent)
      split at ret
      next goesOn =>
        obtain rfl : k.currentTask = r := ok.inj ret
        rcases goesOn with ready | running
        · exact .inr (.inl (ready ▸ state))
        · exact .inl ⟨rfl, running ▸ state⟩
      next => exact .inr (.inr (.inl (ok.inj ret).symm))
    dsimp only at ret
    split at ret
    · exact fallback ret
    · obtain ⟨found, scanned, ret⟩ := of_bind ret
      cases found with
      | none => exact fallback ret
      | some u => exact .inr (.inl (ok.inj ret ▸ scanReady_ready scanned))

/-- The second half of `schedule`: the owner of the next task is only looked at. -/
theorem schedule_started {mid : Kernel} {next : Nat} (ret : (do
      let k ← { mid with currentTask := next }.updateTask next fun task => { task with state := .running }
      let task ← k.task next
      if task.owner ≠ 0 then do
        let _ ← k.process task.owner
        pure k
      else
        pure k) = .ok k') :
    (mid.tasks next).isSome ∧ k'.sched = { mid.sched with current := next }.setState next .running ∧ Frame mid k' ∧
      k'.channels = mid.channels := by
  obtain ⟨task, found, ret⟩ := of_updateTask ret
  have same : setTask { mid with currentTask := next } next { task with state := .running } = k' := by
    obtain ⟨again, -, ret⟩ := of_bind ret
    split at ret
    · obtain ⟨owner, -, ret⟩ := of_bind ret
      exact ok.inj ret
    · exact ok.inj ret
  subst same
  refine ⟨isSome_of_eq_some found, ?_, (Frame.current mid next).trans (Frame.setTask found _ _ _), rfl⟩
  rw [sched_setState found]
  rfl

section

variable (ret : schedule k = .ok k')
include ret

theorem schedule_ok : k' = k ∧ (k.schedulerRunning = true → ∃ next, schedulerPickNext k = .ok next ∧ (next = 0 ∨ next = k.currentTask)) ∨
      ∃ next, SchedStep (.switch next) k.sched k'.sched ∧ Frame k k' ∧ k'.channels = k.channels := by
  rw [schedule] at ret
  split at ret
  case isTrue stopped =>
    refine .inl ⟨(ok.inj ret).symm, fun running => ?_⟩
    rw [running] at stopped
    cases stopped
  obtain ⟨next, picked, ret⟩ := of_bind ret
  dsimp only at ret
  split at ret
  case isTrue stays => exact .inl ⟨(ok.inj ret).symm, fun _ => ⟨next, picked, stays⟩⟩
  case isFalse other =>
  push Not at other
  -- whatever the current task was, the states are then those before the switch
  obtain ⟨mid, stopped, frame, untouched, existed, res, rest, channels⟩ : ∃ mid : Kernel,
      mid.sched = { k.sched with state := k.sched.stopped } ∧ Frame k mid ∧ mid.channels = k.channels ∧
        (mid.tasks next).isSome ∧ k'.sched = { mid.sched with current := next }.setState next .running ∧ Frame mid k' ∧
        k'.channels = mid.channels := by
    unfold Sched.stopped
    split at ret
    case isTrue null =>
      rw [if_neg fun running => running.1 null]
      exact ⟨k, rfl, .refl k, rfl, schedule_started ret⟩
    case isFalse current =>
      obtain ⟨prev, atPrev, ret⟩ := of_task ret
      split at ret
      case isTrue running =>
        obtain ⟨again, same, ret⟩ := of_updateTask ret
        obtain rfl : prev = again := mem_unique atPrev same
        rw [if_pos ⟨current, running ▸ sched_state atPrev⟩]
        exact ⟨_, sched_setState atPrev .ready, .setTask atPrev _ _ _, rfl, schedule_started ret⟩
      case isFalse stays =>
        rw [if_neg fun running => stays (some.inj ((sched_state atPrev).symm.trans running.2))]
        exact ⟨k, rfl, .refl k, rfl, schedule_started ret⟩
  have switched : k'.sched = k.sched.switch next := by
    rw [res, stopped]
    rfl
  have found : k.sched.state next ≠ none := by
    intro missing
    have same := frame.tasks next
    rw [map_eq_none_iff.mp missing] at same
    rw [map_eq_none_iff.mp same] at existed
    cases existed
  have allowed := (schedulerPickNext_picked picked).resolve_left fun same => other.2 same.1
  exact .inr ⟨next, switched ▸ .switch other.1 other.2 found allowed, frame.trans rest, channels.trans untouched⟩

theorem schedule_sched : (k'.sched = k.sched ∨ ∃ t, SchedStep (.switch t) k.sched k'.sched) ∧ Frame k k' := by
  rcases schedule_ok ret with ⟨rfl, -⟩ | ⟨next, step, frame, -⟩
  · exact ⟨.inl rfl, .refl k'⟩
  · exact ⟨.inr ⟨next, step⟩, frame⟩

theorem schedule_channels : k'.channels = k.channels := by
  rcases schedule_ok ret with ⟨rfl, -⟩ | ⟨-, -, -, channels⟩
  · rfl
  · exact channels

theorem schedule_leaves (running : k.schedulerRunning = true) (current : k.currentTask ≠ 0)
    (null : k.sched.state 0 = none) (idle : k.idle ≠ 0) (other : k.currentTask ≠ k.idle)
    (halted : ∀ state, k.sched.state k.currentTask = some state → state = .blocked ∨ state = .dead) : k'.currentTask ≠ k.currentTask := by
  rcases schedule_ok ret with ⟨rfl, stays⟩ | ⟨next, step, -⟩
  · obtain ⟨next, picked, stays⟩ := stays running
    rcases schedulerPickNext_picked picked with ⟨rfl, runs⟩ | ready | rfl | ⟨first, -⟩
    · have halted := halted .running runs
      simp at halted
    · rcases stays with rfl | rfl
      · rw [null] at ready
        cases ready
      · have halted := halted .ready ready
        simp at halted
    · rcases stays with missing | same
      · exact absurd missing idle
      · exact absurd same.symm other
    · exact absurd first current
  · generalize after : k'.sched = s' at step
    cases step with
    | switch _ away => exact fun same => away ((congrArg Sched.current after).symm.trans same)

end

theorem taskSetBlocked_tasks (ret : taskSetBlocked k t = .ok k') :
    ∃ tasks, k' = { k with tasks := tasks } ∧ ∀ u, u ≠ t → tasks u = k.tasks u := by
  obtain ⟨task, -, ret⟩ := of_bind ret
  split at ret
  · obtain ⟨again, -, rfl⟩ := updateTask_eq_ok.mp ret
    exact ⟨_, rfl, fun u other => update_of_ne other ..⟩
  · exact ⟨k.tasks, (ok.inj ret).symm, fun _ _ => rfl⟩

theorem taskSetBlocked_channels (ret : taskSetBlocked k t = .ok k') : k'.channels = k.channels := by
  obtain ⟨tasks, rfl, -⟩ := taskSetBlocked_tasks ret
  rfl

def Wakes (k k' : Kernel) : Prop := ReflTransGen (fun s s' => ∃ t, SchedStep (.wake t) s s') k.sched k'.sched ∧ Frame k k'

theorem Wakes.refl (k : Kernel) : Wakes k k := ⟨.refl, .refl k⟩

theorem Wakes.trans (first : Wakes k k') (second : Wakes k' k'') : Wakes k k'' :=
  ⟨first.1.trans second.1, first.2.trans second.2⟩

theorem Wakes.setChannel (k : Kernel) (c : Nat) (channel : Channel) : Wakes k (k.setChannel c channel) :=
  ⟨.refl, fun _ => rfl, rfl, rfl, rfl, rfl, rfl⟩

theorem taskSetReady_wakes (ret : taskSetReady k t = .ok k') : Wakes k k' := by
  obtain ⟨same | woken, frame⟩ := taskSetReady_sched ret
  · exact ⟨same ▸ .refl, frame⟩
  · exact ⟨.single ⟨t, woken⟩, frame⟩

theorem wakeListener_wakes {c : Nat} {side : Fin 2} (ret : wakeListener k c side = .ok k') : Wakes k k' := by
  obtain ⟨channel, -, ret⟩ := of_bind ret
  split at ret
  · obtain ⟨mid, woken, ret⟩ := of_bind ret
    obtain ⟨channel, -, rfl⟩ := updateChannel_eq_ok.mp ret
    exact (taskSetReady_wakes woken).trans (.setChannel ..)
  · exact ok.inj ret ▸ .refl k

theorem channelClose_wakes {c pid : Nat} (ret : channelClose k c pid = .ok k') : Wakes k k' := by
  have side {mid : Kernel} {write : Channel → Channel} {other : Fin 2} (closed : k.updateChannel c write = .ok mid)
      (woken : wakeListener mid c other = .ok k') : Wakes k k' := by
    obtain ⟨channel, -, rfl⟩ := updateChannel_eq_ok.mp closed
    exact (Wakes.setChannel ..).trans (wakeListener_wakes woken)
  obtain ⟨channel, -, ret⟩ := of_bind ret
  split at ret
  · obtain ⟨mid, closed, woken⟩ := of_bind ret
    exact side closed woken
  · split at ret
    · obtain ⟨mid, closed, woken⟩ := of_bind ret
      exact side closed woken
    · exact ok.inj ret ▸ .refl k

theorem handleCloseAll_wakes {p : Nat} (ret : handleCloseAll k p = .ok k') : Wakes k k' := by
  refine Outcome.forRange_kept (Wakes k) (fun i mid after _ _ before closed => before.trans ?_) ret (.refl k)
  obtain ⟨process, -, closed⟩ := of_bind closed
  split at closed
  · exact channelClose_wakes closed
  all_goals exact ok.inj closed ▸ .refl mid

theorem closing_wakes {p : Nat} (ret : (do
    let k ← handleCloseAll k p
    let process ← k.process p
    if process.waitingTask ≠ 0 then taskSetReady k process.waitingTask else pure k) = .ok k') : Wakes k k' := by
  obtain ⟨closed, close, ret⟩ := of_bind ret
  refine (handleCloseAll_wakes close).trans ?_
  obtain ⟨process, -, ret⟩ := of_bind ret
  split at ret
  · exact taskSetReady_wakes ret
  · exact ok.inj ret ▸ .refl closed

def Cascade (k k' : Kernel) : Prop := ReflTransGen CascadeStep k.sched k'.sched ∧ Frame k k'

theorem Cascade.trans (first : Cascade k k') (second : Cascade k' k'') : Cascade k k'' :=
  ⟨first.1.trans second.1, first.2.trans second.2⟩

theorem Wakes.cascade (wakes : Wakes k k') : Cascade k k' :=
  ⟨ReflTransGen.mono (fun _ _ => .inl) _ _ wakes.1, wakes.2⟩

/-- By induction on the depth of the calls, for the three functions at once. -/
theorem kill_cascade (fuel : Nat) : (∀ k k' t, killTask fuel k t = .ok k' →
      ∃ mid, SchedStep (.kill t) k.sched mid.sched ∧ Frame k mid ∧ Cascade mid k') ∧
    (∀ k k' p, killProcess fuel k p = .ok k' → Cascade k k') ∧
    ∀ k k' t, killThreads fuel k t = .ok k' → Cascade k k' := by
  induction fuel with
  | zero => exact ⟨nofun, nofun, nofun⟩
  | succ fuel ih =>
    obtain ⟨tasks, processes, threads⟩ := ih
    refine ⟨fun k k' t ret => ?_, fun k k' p ret => ?_, fun k k' t ret => ?_⟩
    · obtain ⟨task, found, ret⟩ := of_updateTask ret
      obtain ⟨mid, removed, ret⟩ := of_bind ret
      obtain ⟨before, after, prev, next, there, here, res, frame⟩ := schedulerRemove_sched removed
      rw [sched_setState found] at prev next there here res
      refine ⟨mid, ?_, (Frame.setTask found _ _ _).trans frame, ?_⟩
      · rw [res]
        exact .kill (sched_state found) prev next there here
      · obtain ⟨task, -, ret⟩ := of_bind ret
        split at ret
        · exact processes _ _ _ ret
        · split at ret
          · exact (taskSetReady_wakes ret).cascade
          · exact ok.inj ret ▸ (Wakes.refl mid).cascade
    · obtain ⟨process, killed, -, loop, ret⟩ := of_bind₂ ret
      exact (threads _ _ _ loop).trans (closing_wakes ret).cascade
    · rw [killThreads] at ret
      split at ret
      · exact ok.inj ret ▸ (Wakes.refl k).cascade
      · obtain ⟨task, found, ret⟩ := of_task ret
        split at ret
        case isTrue alive =>
          obtain ⟨mid, killed, ret⟩ := of_bind ret
          obtain ⟨first, step, frame, rest⟩ := tasks _ _ _ killed
          refine Cascade.trans ⟨.single (.inr ⟨t, ?_, step⟩), frame⟩ (rest.trans (threads _ _ _ ret))
          rw [sched_state found]
          exact fun same => alive (some.inj same)
        case isFalse => exact threads _ _ _ ret

theorem taskKill_sched (ret : taskKill k t = .ok k') :
    ∃ mid, SchedStep (.kill t) k.sched mid.sched ∧ Frame k mid ∧ Cascade mid k' := (kill_cascade _).1 k k' t ret

theorem processKill_cascade {p : Nat} (ret : processKill k p = .ok k') : Cascade k k' :=
  (kill_cascade _).2.1 k k' p ret

end Functions

end Xos.Scheduler
