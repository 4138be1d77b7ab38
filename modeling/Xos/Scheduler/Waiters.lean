import Xos.Scheduler.SleepQueue

/-!
# Tasks that nothing wakes up

A task that waits is registered as `joining_task`, as `waiting_task` or as a listener. A blocked task that is registered
nowhere stays blocked.
-/
namespace Xos.Scheduler

open Memory Outcome Kernel Option List Function Ensures

variable {k : Kernel} {t u p c : Nat}

structure Kernel.Unregistered (k : Kernel) (t : Nat) : Prop where
  joining : ∀ u task, k.tasks u = some task → task.joiningTask ≠ t
  waiting : ∀ p process, k.processes p = some process → process.waitingTask ≠ t
  listening : ∀ c channel side, k.channels c = some channel → channel.listeners side ≠ t

structure Kernel.Halted (k : Kernel) (t : Nat) : Prop extends k.Unregistered t where
  null : t ≠ 0
  started : k.currentTask ≠ 0
  idle : k.idle ≠ t
  halted : ∀ task, k.tasks t = some task → task.state = .blocked ∨ task.state = .dead

structure Kernel.Dormant (k : Kernel) (t : Nat) : Prop extends k.Halted t where
  current : k.currentTask ≠ t

/-- What is switched to is ready or the idle task, and so it is another one. -/
theorem Kernel.Halted.schedule {k' : Kernel} (halted : k.Halted t) (ret : schedule k = .ok k') :
    k'.Halted t ∧ (k'.currentTask = t → k.currentTask = t) := by
  rcases schedule_ok ret with ⟨rfl, -⟩ | ⟨next, step, frame, channels⟩
  · exact ⟨halted, id⟩
  have stops (state : TaskState) (found : k.sched.state t = some state) : state = .blocked ∨ state = .dead := by
    obtain ⟨task, record, rfl⟩ := map_eq_some_iff.mp found
    exact halted.halted task record
  generalize after : k'.sched = s' at step
  cases step with
  | switch null other _ picked =>
    have apart : t ≠ next := by
      rintro rfl
      rcases picked with ready | rfl | ⟨first, -⟩
      · have stops := stops .ready ready
        simp at stops
      · exact halted.idle rfl
      · exact halted.started first
    have current : k'.currentTask = next := congrArg Sched.current after
    have idle : k'.idle = k.idle := congrArg Sched.idle after
    refine ⟨⟨⟨fun u task found => ?_, frame.processes ▸ halted.waiting, channels ▸ halted.listening⟩, halted.null,
      current ▸ null, idle ▸ halted.idle, fun task found => ?_⟩, fun here => absurd (here.symm.trans current) apart⟩
    · have same := frame.tasks u
      rw [found, map_some] at same
      obtain ⟨before, atStart, fixed⟩ := map_eq_some_iff.mp same.symm
      have kept := congrArg Task.joiningTask fixed
      exact fun here => halted.joining u before atStart (kept.trans here)
    · have state : k'.sched.state t = some task.state := sched_state found
      rw [after, Sched.switch_state, update_of_ne apart] at state
      rcases k.sched.stopped_cases t with ⟨stays, -⟩ | ⟨-, running, -⟩
      · exact stops _ (stays ▸ state)
      · have stops := stops .running running
        simp at stops

theorem Kernel.Unregistered.setTask {task : Task} (unregistered : k.Unregistered t) (joining : task.joiningTask ≠ t) :
    (k.setTask u task).Unregistered t := by
  refine { unregistered with joining := fun v record found => ?_ }
  by_cases here : v = u
  · obtain rfl : task = record := by simpa [here] using found
    exact joining
  · exact unregistered.joining v record (by simpa [here] using found)

theorem Kernel.Unregistered.taskSetBlocked {k' : Kernel} (unregistered : k.Unregistered t) (null : t ≠ 0)
    (started : k.currentTask ≠ 0) (idle : k.idle ≠ t) (ret : taskSetBlocked k t = .ok k') : k'.Halted t := by
  obtain ⟨task, found, ret⟩ := of_task ret
  split at ret
  next alive =>
    obtain ⟨again, same, rfl⟩ := updateTask_eq_ok.mp ret
    refine ⟨unregistered.setTask (unregistered.joining t again same), null, started, idle, fun record here => .inl ?_⟩
    rw [setTask_tasks, update_self, some.injEq] at here
    exact here ▸ rfl
  next dead =>
    obtain rfl := Except.ok.inj ret
    refine ⟨unregistered, null, started, idle, fun record here => .inr ?_⟩
    obtain rfl : task = record := mem_unique found here
    exact not_not.mp dead

namespace Kernel.Dormant

section

variable (dormant : k.Dormant t)
include dormant

theorem setTask {task : Task} (halted : u = t → task.state = .blocked ∨ task.state = .dead)
    (joining : task.joiningTask ≠ t) : (k.setTask u task).Dormant t := by
  refine { dormant with toUnregistered := dormant.toUnregistered.setTask joining, halted := fun record found => ?_ }
  by_cases here : t = u
  · obtain rfl : task = record := by simpa [here] using found
    exact halted here.symm
  · exact dormant.halted record (by simpa [here] using found)

theorem setProcess {process : Process} (waiting : process.waitingTask ≠ t) : (k.setProcess p process).Dormant t := by
  refine { dormant with waiting := fun q record found => ?_ }
  by_cases here : q = p
  · obtain rfl : process = record := by simpa [here] using found
    exact waiting
  · exact dormant.waiting q record (by simpa [here] using found)

theorem setChannel {channel : Channel} (listening : ∀ side, channel.listeners side ≠ t) : (k.setChannel c channel).Dormant t := by
  refine { dormant with listening := fun d record side found => ?_ }
  by_cases here : d = c
  · obtain rfl : channel = record := by simpa [here] using found
    exact listening side
  · exact dormant.listening d record side (by simpa [here] using found)

theorem updateTask {write : Task → Task} (halted : ∀ task : Task, u = t → task.state = .blocked ∨ task.state = .dead →
      (write task).state = .blocked ∨ (write task).state = .dead)
    (joining : ∀ task : Task, task.joiningTask ≠ t → (write task).joiningTask ≠ t) :
    Ensures (k.updateTask u write) (·.Dormant t) := by
  intro k' ret
  obtain ⟨task, found, rfl⟩ := updateTask_eq_ok.mp ret
  apply dormant.setTask
  · intro same
    exact halted task same (dormant.halted task (same ▸ found))
  · exact joining task (dormant.joining u task found)

theorem relink {write : Task → Task} (state : ∀ task, (write task).state = task.state)
    (joining : ∀ task, (write task).joiningTask = task.joiningTask) : Ensures (k.updateTask u write) (·.Dormant t) := by
  apply dormant.updateTask
  · intro task _ halted
    rwa [state]
  · intro task other
    rwa [joining]

theorem updateProcess {write : Process → Process}
    (waiting : ∀ process : Process, process.waitingTask ≠ t → (write process).waitingTask ≠ t) :
    Ensures (k.updateProcess p write) (·.Dormant t) := by
  intro k' ret
  obtain ⟨process, found, rfl⟩ := updateProcess_eq_ok.mp ret
  exact dormant.setProcess (waiting process (dormant.waiting p process found))

theorem updateChannel {write : Channel → Channel}
    (listening : ∀ (channel : Channel) side, channel.listeners side ≠ t → (write channel).listeners side ≠ t) :
    Ensures (k.updateChannel c write) (·.Dormant t) := by
  intro k' ret
  obtain ⟨channel, found, rfl⟩ := updateChannel_eq_ok.mp ret
  exact dormant.setChannel fun side => listening channel side (dormant.listening c channel side found)

theorem taskSetReady (other : u ≠ t) : Ensures (taskSetReady k u) (·.Dormant t) := by
  refine .read fun task _ => ?_
  apply Ensures.ite
  · intro _
    exact dormant.updateTask (fun _ same => absurd same other) fun _ joining => joining
  · intro _
    exact .pure dormant

theorem taskSetBlocked : Ensures (taskSetBlocked k u) (·.Dormant t) := by
  refine .read fun task _ => ?_
  apply Ensures.ite
  · intro _
    exact dormant.updateTask (fun _ _ _ => .inl rfl) fun _ joining => joining
  · intro _
    exact .pure dormant

theorem schedulerRemove : Ensures (schedulerRemove k u) (·.Dormant t) := by
  refine .read fun task _ => ?_
  refine .bind (dormant.relink (fun _ => rfl) fun _ => rfl) fun k dormant => ?_
  refine .read fun task _ => ?_
  exact dormant.relink (fun _ => rfl) fun _ => rfl

theorem schedulerAdd : Ensures (schedulerAdd k u) (·.Dormant t) := by
  apply Ensures.ite
  · intro _
    have first : Kernel.Dormant { k with taskList := u } t := { dormant with }
    exact first.relink (fun _ => rfl) fun _ => rfl
  · intro _
    refine .read fun head _ => ?_
    refine .bind (dormant.relink (fun _ => rfl) fun _ => rfl) fun k dormant => ?_
    refine .read fun head _ => ?_
    refine .bind (dormant.relink (fun _ => rfl) fun _ => rfl) fun k dormant => ?_
    exact dormant.relink (fun _ => rfl) fun _ => rfl

theorem schedule : Ensures (schedule k) (·.Dormant t) := by
  intro k' ret
  obtain ⟨halted, stays⟩ := dormant.toHalted.schedule ret
  exact ⟨halted, fun here => dormant.current (stays here)⟩

theorem wakeListener {side : Fin 2} : Ensures (wakeListener k c side) (·.Dormant t) := by
  refine .read fun channel found => ?_
  have other := dormant.listening c channel side (channel_eq_ok.mp found)
  apply Ensures.ite
  · intro _
    refine .bind (dormant.taskSetReady other) fun k dormant => ?_
    apply dormant.updateChannel
    intro channel end' listening
    by_cases here : end' = side
    · simpa [here] using dormant.null.symm
    · simpa [here] using listening
  · intro _
    exact .pure dormant

theorem channelClose {pid : Nat} : Ensures (channelClose k c pid) (·.Dormant t) := by
  refine .read fun channel _ => ?_
  apply Ensures.ite
  · intro _
    exact .bind (dormant.updateChannel fun _ _ listening => listening) fun k dormant => dormant.wakeListener
  · intro _
    apply Ensures.ite
    · intro _
      exact .bind (dormant.updateChannel fun _ _ listening => listening) fun k dormant => dormant.wakeListener
    · intro _
      exact .pure dormant

theorem handleCloseAll : Ensures (handleCloseAll k p) (·.Dormant t) := by
  refine forRange dormant fun i k dormant => ?_
  refine .read fun process _ => ?_
  split
  · exact dormant.channelClose
  all_goals exact .pure dormant

end

/-- By induction on the depth of the calls, for the three functions at once: who is woken up was
registered. -/
theorem kill (fuel : Nat) : (∀ k u, k.Dormant t → Ensures (killTask fuel k u) (·.Dormant t)) ∧
    (∀ k p, k.Dormant t → Ensures (killProcess fuel k p) (·.Dormant t)) ∧
    ∀ k u, k.Dormant t → Ensures (killThreads fuel k u) (·.Dormant t) := by
  induction fuel with
  | zero => exact ⟨fun _ _ _ => .stop _, fun _ _ _ => .stop _, fun _ _ _ => .stop _⟩
  | succ fuel ih =>
    obtain ⟨tasks, processes, threads⟩ := ih
    refine ⟨fun k u dormant => ?_, fun k p dormant => ?_, fun k u dormant => ?_⟩
    · refine .bind (dormant.updateTask (fun _ _ _ => .inr rfl) fun _ joining => joining) fun k dormant => ?_
      refine .bind dormant.schedulerRemove fun k dormant => ?_
      refine .read fun task found => ?_
      have other := dormant.joining u task (task_eq_ok.mp found)
      apply Ensures.ite
      · intro _
        exact processes k task.owner dormant
      · intro _
        apply Ensures.ite
        · intro _
          exact dormant.taskSetReady other
        · intro _
          exact .pure dormant
    · apply Ensures.read
      intro process _
      refine .bind (threads k process.mainTask dormant) fun k dormant => ?_
      refine .bind dormant.handleCloseAll fun k dormant => ?_
      refine .read fun process found => ?_
      have other := dormant.waiting p process (process_eq_ok.mp found)
      apply Ensures.ite
      · intro _
        exact dormant.taskSetReady other
      · intro _
        exact .pure dormant
    · rw [killThreads]
      refine .guard dormant fun _ => ?_
      refine .read fun task _ => ?_
      apply Ensures.ite
      · intro _
        exact .bind (tasks k u dormant) fun k dormant => threads k task.nextInProcess dormant
      · intro _
        exact threads k task.nextInProcess dormant

section

variable (dormant : k.Dormant t)
include dormant

theorem taskKill : Ensures (taskKill k u) (·.Dormant t) := (kill _).1 k u dormant

theorem processKill : Ensures (processKill k p) (·.Dormant t) := (kill _).2.1 k p dormant

theorem taskExit : Ensures (taskExit k) (·.Dormant t) :=
  .bind dormant.taskKill fun _ dormant => dormant.schedule

theorem processExit {code : Nat} : Ensures (processExit k code) (·.Dormant t) := by
  refine .read fun task _ => ?_
  exact .bind dormant.processKill fun _ dormant => dormant.schedule

theorem processExitThread {retVal : Nat} : Ensures (processExitThread k retVal) (·.Dormant t) :=
  .bind (dormant.relink (fun _ => rfl) fun _ => rfl) fun _ dormant => dormant.taskExit

theorem taskCreateUserFromSpace {space : AddressSpace} {taskIndex : Nat} (other : u ≠ t) :
    Ensures (taskCreateUserFromSpace k u space taskIndex) (·.Dormant t) := by
  have created : (taskCreate k u).Dormant t := by
    have counted : Kernel.Dormant { k with nextId := Word.u32 (k.nextId + 1) } t := { dormant with }
    exact counted.setTask (fun same => absurd same other) dormant.null.symm
  refine .bind (created.relink (fun _ => rfl) fun _ => rfl) fun k dormant => ?_
  apply Ensures.read
  rintro ⟨pmm, phys⟩ _
  refine .read fun vmm _ => ?_
  exact .pure { dormant with }

theorem createProcess : Ensures (createProcess k p) (·.Dormant t) := by
  have created {process : Process} (waiting : process.waitingTask = 0) :
      ({ k with nextPid := Word.u32 (k.nextPid + 1) }.setProcess p process).Dormant t := by
    have counted : Kernel.Dormant { k with nextPid := Word.u32 (k.nextPid + 1) } t := { dormant with }
    exact counted.setProcess (waiting ▸ dormant.null.symm)
  unfold Scheduler.createProcess
  apply Ensures.ite
  · intro _
    refine .bind ((created rfl).updateProcess fun _ waiting => waiting) fun k dormant => ?_
    refine .bind (dormant.updateProcess fun _ waiting => waiting) fun k dormant => ?_
    exact .pure { dormant with }
  · intro _
    exact .pure { created rfl with }

theorem adopt {parent : Nat} : Ensures (processExec.adopt k parent p) (·.Dormant t) := by
  refine .guard dormant fun _ => ?_
  refine .read fun process _ => ?_
  refine .bind (dormant.updateProcess fun _ waiting => waiting) fun k dormant => ?_
  exact dormant.updateProcess fun _ waiting => waiting

theorem inherit {parent slot : Nat} {std : Int} : Ensures (processExec.inherit k parent p std slot) (·.Dormant t) := by
  refine .guard dormant fun _ => ?_
  refine .guard dormant fun _ => ?_
  refine .read fun process _ => ?_
  split
  · exact dormant.updateProcess fun _ waiting => waiting
  · exact .pure dormant

theorem processExec {space : AddressSpace} {stdIn stdOut : Int} (other : u ≠ t) :
    Ensures (processExec k u p space stdIn stdOut) (·.1.Dormant t) := by
  refine .read fun parent _ => ?_
  refine .bind (dormant.taskCreateUserFromSpace other) fun k dormant => ?_
  refine .bind dormant.createProcess fun k dormant => ?_
  refine .read fun parentPid _ => ?_
  refine .bind (dormant.updateProcess fun _ waiting => waiting) fun k dormant => ?_
  refine .bind (dormant.relink (fun _ => rfl) fun _ => rfl) fun k dormant => ?_
  refine .bind (dormant.updateProcess fun _ waiting => waiting) fun k dormant => ?_
  refine .bind dormant.adopt fun k dormant => ?_
  refine .bind dormant.inherit fun k dormant => ?_
  refine .bind dormant.inherit fun k dormant => ?_
  refine .bind dormant.schedulerAdd fun k dormant => ?_
  refine .read fun process _ => ?_
  exact .pure dormant

theorem processSpawnThread (other : u ≠ t) : Ensures (processSpawnThread k u) (·.Dormant t) := by
  refine .read fun task _ => ?_
  apply Ensures.ite
  · intro _
    exact .stop _
  · intro _
    refine .read fun process _ => ?_
    refine .bind (dormant.updateProcess fun _ waiting => waiting) fun k dormant => ?_
    refine .bind (dormant.taskCreateUserFromSpace other) fun k dormant => ?_
    refine .bind (dormant.relink (fun _ => rfl) fun _ => rfl) fun k dormant => ?_
    exact dormant.schedulerAdd

theorem freeTask : Kernel.Dormant { k with tasks := update k.tasks u none } t := by
  have before {v : Nat} {task : Task} (found : update k.tasks u none v = some task) : k.tasks v = some task := by
    by_cases here : v = u
    · simp [here] at found
    · simpa [here] using found
  exact { dormant with
    halted := fun task found => dormant.halted task (before found)
    joining := fun v task found => dormant.joining v task (before found) }

theorem deleteThreads {fuel : Nat} : Ensures (deleteThreads fuel k u) (·.Dormant t) := by
  induction fuel generalizing k u with
  | zero => exact .stop _
  | succ fuel ih =>
    refine .guard dormant fun _ => ?_
    refine .read fun task _ => ?_
    exact ih dormant.freeTask

theorem processDelete : Ensures (processDelete k p) (·.Dormant t) := by
  refine .read fun process _ => ?_
  refine .bind dormant.deleteThreads fun k dormant => .pure { dormant with waiting := fun q process found => ?_ }
  by_cases here : q = p
  · simp [here] at found
  · exact dormant.waiting q process (by simpa [here] using found)

theorem processWait {pid : Nat} : Ensures (processWait k pid) (·.1.Dormant t) := by
  refine .read fun p _ => ?_
  refine .guard dormant fun _ => ?_
  refine .read fun process _ => ?_
  refine .guard dormant fun _ => ?_
  refine .bind (dormant.updateProcess fun _ _ => dormant.current) fun k dormant => ?_
  refine .bind dormant.taskSetBlocked fun k dormant => ?_
  exact .bind dormant.schedule fun k dormant => .pure dormant

theorem processWaitResume : Ensures (processWaitResume k p) (·.1.Dormant t) := by
  refine .read fun process _ => ?_
  exact .bind dormant.processDelete fun k dormant => .pure dormant

theorem processJoinThread : Ensures (processJoinThread k u) (·.1.Dormant t) := by
  refine .read fun task _ => ?_
  refine .guard dormant fun _ => ?_
  refine .guard dormant fun _ => ?_
  refine .bind (dormant.updateTask (fun _ _ halted => halted) fun _ _ => dormant.current) fun k dormant => ?_
  refine .bind dormant.taskSetBlocked fun k dormant => ?_
  exact .bind dormant.schedule fun k dormant => .pure dormant

theorem wakeDue {entries : Nat → SleepQueueEntry} {tick left i : Nat}
    (later : ∀ j, i ≤ j → j < i + left → (entries j).wakeTick ≤ tick → (entries j).t ≠ t) :
    Ensures (Scheduler.wakeDue entries tick left i k) (·.1.Dormant t) := by
  induction left generalizing i k with
  | zero => exact .pure dormant
  | succ left ih =>
    apply Ensures.ite
    · intro due
      refine .bind (dormant.taskSetReady (later i (Nat.le_refl i) (by omega) due)) fun k dormant => ?_
      refine .bind (ih dormant fun j low high => later j (by omega) (by omega)) ?_
      rintro ⟨k, handed⟩ dormant
      exact .pure dormant
    · intro _
      exact .pure dormant

theorem sleepQueueWake {q : SleepQueue} {w tick : Nat} (before : tick < w)
    (queue : ∀ entry ∈ q.items, entry.t = t → w ≤ entry.wakeTick) :
    Ensures (Scheduler.sleepQueueWake k q tick) fun res => res.1.Dormant t ∧
      ∀ entry ∈ res.2.1.items, entry.t = t → w ≤ entry.wakeTick := by
  rintro ⟨k', q', handed⟩ ret
  have items := (sleepQueueWake_items ret).1
  constructor
  · obtain ⟨⟨woken, list⟩, loop, ret⟩ := Outcome.of_bind ret
    have halted : woken.Dormant t := by
      refine dormant.wakeDue (fun j _ high due here => ?_) (woken, list) loop
      have inside : q.entries j ∈ q.items := mem_map.mpr ⟨j, mem_range.mpr (by omega), rfl⟩
      have := queue _ inside here
      omega
    dsimp only at ret
    split at ret
    · exact (ok_inj ret).1 ▸ halted
    · exact (ok_inj ret).1 ▸ halted
  · intro entry inside
    apply queue
    rw [items]
    exact mem_append_right _ inside

end

end Kernel.Dormant

theorem sleepQueueEnqueue_later {q : SleepQueue} {u w tick : Nat} (queue : ∀ entry ∈ q.items, entry.t = t → w ≤ entry.wakeTick)
    (new : u = t → w ≤ tick) : ∀ entry ∈ (sleepQueueEnqueue q u tick).1.items, entry.t = t → w ≤ entry.wakeTick := by
  intro entry inside here
  rcases res : sleepQueueEnqueue q u tick with ⟨q', accepted⟩
  rw [res] at inside
  cases accepted with
  | false => exact queue entry (sleepQueueEnqueue_refused res ▸ inside) here
  | true =>
    obtain ⟨front, back, before, after, -⟩ := sleepQueueEnqueue_items res
    rw [after, mem_append, mem_cons] at inside
    rcases inside with inFront | rfl | inBack
    · exact queue entry (by simp [before, inFront]) here
    · exact new here
    · exact queue entry (by simp [before, inBack]) here

end Xos.Scheduler
