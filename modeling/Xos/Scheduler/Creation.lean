import Xos.Scheduler.Ring

/-!
# What creation and deletion write (`process_exec`, `process_spawn_thread`, `process_delete`)

Creation writes new records and leaves the links alone until the task is added to the ring. Deletion frees the records
and writes to no other.
-/
namespace Xos.Scheduler

open Memory Word Outcome Kernel Function Except Option

variable {k k' : Kernel} {t p : Nat}

def newTask (k : Kernel) (taskIndex : Nat) : Task :=
  { id := k.nextId, taskIndex := taskIndex, state := .ready, owner := 0, joiningTask := 0, retVal := 0,
    nextInProcess := 0, next := 0, prev := 0 }

variable {space : AddressSpace} {stdOut : Int}

theorem taskCreateUserFromSpace_ok {taskIndex : Nat} (ret : taskCreateUserFromSpace k t space taskIndex = .ok k') :
    ∃ vmm, k' = { k with nextId := u32 (k.nextId + 1), vmm := vmm }.setTask t (newTask k taskIndex) := by
  obtain ⟨task, found, ret⟩ := of_updateTask ret
  obtain ⟨⟨pmm, phys⟩, -, ret⟩ := of_bind ret
  obtain ⟨vmm, -, ret⟩ := of_bind ret
  refine ⟨vmm, ?_⟩
  rw [taskCreate, setTask_tasks, update_self, some.injEq] at found
  rw [← ok.inj ret, taskCreate, setTask_setTask, ← found]
  rfl

/-- The fields of a process that are not written once it is in the list, but for what is awaited. -/
def Process.listed (process : Process) : Nat × Nat × Nat × Nat := (process.pid, process.mainTask, process.next, process.prev)

theorem updateProcess_view {β : Type} (view : Process → β) {write : Process → Process}
    (ret : k.updateProcess p write = .ok k') (same : ∀ process, view (write process) = view process) :
    k' = { k with processes := k'.processes } ∧ ∀ q, (k'.processes q).map view = (k.processes q).map view := by
  obtain ⟨process, found, rfl⟩ := updateProcess_eq_ok.mp ret
  refine ⟨rfl, fun q => ?_⟩
  rw [setProcess_processes]
  by_cases here : q = p
  · subst here
    rw [update_self, found]
    exact congrArg some (same process)
  · rw [update_of_ne here]

structure Fills (k k' : Kernel) : Prop where
  others : k' = { k with processes := k'.processes }
  listed : ∀ q, (k'.processes q).map Process.listed = (k.processes q).map Process.listed

theorem Fills.refl (k : Kernel) : Fills k k := ⟨rfl, fun _ => rfl⟩

theorem Fills.trans {k'' : Kernel} (first : Fills k k') (second : Fills k' k'') : Fills k k'' := by
  refine ⟨?_, fun q => (second.listed q).trans (first.listed q)⟩
  exact second.others.trans (congrArg (fun mid : Kernel => { mid with processes := k''.processes }) first.others)

theorem Fills.sched (fills : Fills k k') : k'.sched = k.sched ∧ k'.tasks = k.tasks := by
  rw [fills.others]
  exact ⟨rfl, rfl⟩

theorem Fills.mains (fills : Fills k k') (q : Nat) : (k'.processes q).map Process.mainTask =
    (k.processes q).map Process.mainTask := by
  have listed := congrArg (Option.map fun view => view.2.1) (fills.listed q)
  rwa [Option.map_map, Option.map_map] at listed

theorem Fills.update {write : Process → Process} (ret : k.updateProcess p write = .ok k')
    (same : ∀ process, (write process).listed = process.listed) : Fills k k' :=
  ⟨(updateProcess_view _ ret same).1, (updateProcess_view _ ret same).2⟩

theorem inherit_fills {parent slot : Nat} {std : Int} (ret : processExec.inherit k parent p std slot = .ok k') : Fills k k' := by
  unfold processExec.inherit at ret
  split at ret
  · exact ok.inj ret ▸ .refl k
  · split at ret
    · exact ok.inj ret ▸ .refl k
    · obtain ⟨process, -, ret⟩ := of_bind ret
      split at ret
      · exact .update ret fun _ => rfl
      · exact ok.inj ret ▸ .refl k

theorem adopt_fills {parent : Nat} (ret : processExec.adopt k parent p = .ok k') : Fills k k' := by
  unfold processExec.adopt at ret
  split at ret
  · exact ok.inj ret ▸ .refl k
  · obtain ⟨process, mid, -, sibling, ret⟩ := of_bind₂ ret
    exact (Fills.update sibling fun _ => rfl).trans (.update ret fun _ => rfl)

/-- The record of a process as `create_process` leaves it, in front of its links. -/
def newProcess (k : Kernel) : Process where
  pid := k.nextPid
  parentPid := 0
  nextTaskIndex := 0
  addressSpace := ⟨0, 0⟩
  heapNext := 0
  handles := fun _ => ⟨.none, 0⟩
  exitCode := 0
  mainTask := 0
  waitingTask := 0
  next := 0
  prev := 0
  firstChild := 0
  nextSibling := 0

theorem createProcess_ok (fresh : p ≠ k.lastProcess) (ret : createProcess k p = .ok k') :
    k.lastProcess = 0 ∧ k' = { k.setProcess p (newProcess k) with
        nextPid := u32 (k.nextPid + 1), firstProcess := p, lastProcess := p } ∨
    ∃ last, k.lastProcess ≠ 0 ∧ k.processes k.lastProcess = some last ∧
      k' = { (k.setProcess p { newProcess k with prev := k.lastProcess }).setProcess k.lastProcess { last with next := p } with
        nextPid := u32 (k.nextPid + 1), lastProcess := p } := by
  unfold createProcess at ret
  dsimp only at ret
  split at ret
  case isTrue some =>
    obtain ⟨mid, first, ret⟩ := of_bind ret
    obtain ⟨process, found, rfl⟩ := updateProcess_eq_ok.mp first
    obtain ⟨mid, second, ret⟩ := of_bind ret
    obtain ⟨last, there, rfl⟩ := updateProcess_eq_ok.mp second
    rw [setProcess_processes, update_self, Option.some.injEq] at found
    obtain rfl : newProcess k = process := found
    have apart : k.lastProcess ≠ p := fresh.symm
    replace there : update (update k.processes p _) p _ k.lastProcess = Option.some last := there
    rw [update_of_ne apart, update_of_ne apart] at there
    refine .inr ⟨last, some, there, ?_⟩
    rw [← ok.inj ret]
    simp only [setProcess, update_idem]
  case isFalse none =>
    exact .inl ⟨not_not.mp none, (ok.inj ret).symm⟩

/-- `create_process` writes to the records of processes and the list of them. -/
theorem createProcess_others (ret : createProcess k p = .ok k') :
    k' = { k with processes := k'.processes, nextPid := k'.nextPid, firstProcess := k'.firstProcess,
                  lastProcess := k'.lastProcess } ∧
      ∀ q, (k'.processes q).map Process.mainTask = update (fun q => (k.processes q).map Process.mainTask) p (some 0) q := by
  have created (q : Nat) : ((k.setProcess p (newProcess k)).processes q).map Process.mainTask =
      update (fun q => (k.processes q).map Process.mainTask) p (some 0) q := by
    by_cases here : q = p
    · subst here
      simp [newProcess]
    · simp [here]
  unfold createProcess at ret
  dsimp only at ret
  split at ret
  · obtain ⟨mid, final, first, second, ret⟩ := of_bind₂ ret
    obtain ⟨others, mains⟩ := updateProcess_view Process.mainTask first fun _ => rfl
    obtain ⟨others', mains'⟩ := updateProcess_view Process.mainTask second fun _ => rfl
    rw [← ok.inj ret]
    refine ⟨?_, fun q => (mains' q).trans ((mains q).trans (created q))⟩
    rw [others', others]
    rfl
  · exact ok.inj ret ▸ ⟨rfl, created⟩

/-- A record for a task that is the main task of `p` or one of its threads. -/
structure Task.BelongsTo (task : Task) (p : Nat) : Prop where
  ready : task.state = .ready
  owner : task.owner = p
  alone : task.nextInProcess = 0

variable {stdIn : Int} {pid : Nat}

section

variable (ret : processExec k t p space stdIn stdOut = .ok (k', pid))
include ret

/-- `process_exec` makes a record for the main task, a record for the process at the end of the list,
writes to the latter and to the parent, and adds the task to the ring. -/
theorem processExec_ok :
    ∃ vmm listed process filled,
      taskCreateUserFromSpace k t space 0 = .ok ({ k with nextId := u32 (k.nextId + 1), vmm := vmm }.setTask t (newTask k 0)) ∧
      createProcess ({ k with nextId := u32 (k.nextId + 1), vmm := vmm }.setTask t (newTask k 0)) p = .ok listed ∧
      listed.processes p = some process ∧
      Fills ((listed.setProcess p { process with mainTask := t }).setTask t { newTask k 0 with owner := p }) filled ∧
      schedulerAdd filled t = .ok k' := by
  obtain ⟨parent, created, -, task, ret⟩ := of_bind₂ ret
  obtain ⟨vmm, rfl⟩ := taskCreateUserFromSpace_ok task
  obtain ⟨listed, parentPid, list, -, ret⟩ := of_bind₂ ret
  obtain ⟨mid, main, ret⟩ := of_bind ret
  obtain ⟨process, found, rfl⟩ := updateProcess_eq_ok.mp main
  obtain ⟨again, same, ret⟩ := of_updateTask ret
  obtain ⟨mid₁, mid₂, first, second, ret⟩ := of_bind₂ ret
  obtain ⟨mid₃, filled, third, fourth, ret⟩ := of_bind₂ ret
  obtain ⟨added, final, add, -, ret⟩ := of_bind₂ ret
  obtain ⟨rfl, -⟩ := ok_inj ret
  have record : again = newTask k 0 := by
    have tasks : listed.tasks = _ := congrArg tasks (createProcess_others list).1
    rw [setProcess_tasks, tasks, setTask_tasks, update_self] at same
    exact (some.inj same).symm
  subst record
  refine ⟨vmm, listed, process, filled, task, list, found, Fills.trans ⟨rfl, fun q => ?_⟩ ((Fills.update first fun _ => rfl).trans
    ((adopt_fills second).trans ((inherit_fills third).trans (inherit_fills fourth)))), add⟩
  by_cases here : q = p
  · subst here
    simp [Process.listed]
  · simp [here]

omit ret in
/-- `process_spawn_thread` counts the thread, makes a record for it and adds it to the ring. -/
theorem processSpawnThread_ok (ret : processSpawnThread k t = .ok k') :
    ∃ p process vmm filled taskIndex, (k.tasks k.currentTask).map Task.owner = some p ∧ k.processes p = some process ∧
      Fills k filled ∧
      schedulerAdd ({ filled with nextId := u32 (k.nextId + 1), vmm := vmm }.setTask t
        { newTask k taskIndex with owner := p }) t = .ok k' := by
  obtain ⟨current, found, ret⟩ := of_task ret
  dsimp only at ret
  split at ret
  · cases ret
  · obtain ⟨process, filled, record, counted, ret⟩ := of_bind₂ ret
    obtain ⟨created, task, ret⟩ := of_bind ret
    obtain ⟨vmm, rfl⟩ := taskCreateUserFromSpace_ok task
    obtain ⟨again, same, ret⟩ := of_updateTask ret
    have fills : Fills k filled := Fills.update counted fun _ => rfl
    refine ⟨current.owner, process, vmm, filled, process.nextTaskIndex, congrArg (Option.map _) found,
      process_eq_ok.mp record, fills, ?_⟩
    have nextId := congrArg nextId fills.others
    rw [setTask_tasks, update_self, some.injEq] at same
    rw [← same, setTask_setTask, nextId] at ret
    rwa [newTask, nextId] at ret

omit ret in
theorem schedulerAdd_others (ret : schedulerAdd k t = .ok k') : k' = { k with tasks := k'.tasks, taskList := k'.taskList } := by
  unfold schedulerAdd at ret
  split at ret
  · obtain ⟨task, -, rfl⟩ := updateTask_eq_ok.mp ret
    rfl
  · obtain ⟨head, mid, -, first, ret⟩ := of_bind₂ ret
    obtain ⟨task, -, rfl⟩ := updateTask_eq_ok.mp first
    obtain ⟨head, mid, -, second, ret⟩ := of_bind₂ ret
    obtain ⟨task, -, rfl⟩ := updateTask_eq_ok.mp second
    obtain ⟨task, -, rfl⟩ := updateTask_eq_ok.mp ret
    rfl

theorem processExec_vmm :
    ∃ created, taskCreateUserFromSpace k t space 0 = .ok created ∧ k'.vmm = created.vmm := by
  obtain ⟨vmm, listed, process, filled, task, list, found, fills, add⟩ := processExec_ok ret
  refine ⟨_, task, ?_⟩
  have added : k'.vmm = filled.vmm := by rw [schedulerAdd_others add]
  have written : filled.vmm = listed.vmm := by rw [fills.others]; rfl
  rw [added, written, (createProcess_others list).1]

/-- A task of `p` is created and added to the ring, and the other tasks are as before. -/
def Enters (k : Kernel) (t p : Nat) (k' : Kernel) : Prop :=
  ∃ (base : Kernel) (task : Task), base.sched = k.sched ∧ base.tasks = k.tasks ∧ task.BelongsTo p ∧
    schedulerAdd (base.setTask t task) t = .ok k'

omit ret in
theorem enters_of_add {mid : Kernel} (task : Task) (sched : mid.sched = (k.setTask t task).sched)
    (tasks : mid.tasks = (k.setTask t task).tasks) (belongs : task.BelongsTo p)
      (add : schedulerAdd mid t = .ok k') : Enters k t p k' := by
  refine ⟨{ mid with tasks := k.tasks }, task, ?_, rfl, belongs, ?_⟩
  · have head : mid.taskList = k.taskList := congrArg Sched.head sched
    have current : mid.currentTask = k.currentTask := congrArg Sched.current sched
    have idle : mid.idle = k.idle := congrArg Sched.idle sched
    exact Sched.ext rfl rfl rfl head current idle
  · have same : setTask { mid with tasks := k.tasks } t task = mid :=
      congrArg (fun tasks => ({ mid with tasks := tasks } : Kernel)) tasks.symm
    rw [same]
    exact add

theorem processExec_enters : Enters k t p k' ∧
      ∀ q, (k'.processes q).map Process.mainTask = update (fun q => (k.processes q).map Process.mainTask) p (some t) q := by
  obtain ⟨vmm, listed, process, filled, -, list, found, fills, add⟩ := processExec_ok ret
  obtain ⟨others, mains⟩ := createProcess_others list
  obtain ⟨sched, tasks⟩ := fills.sched
  refine ⟨enters_of_add { newTask k 0 with owner := p } (sched.trans ?_) (tasks.trans ?_) ⟨rfl, rfl, rfl⟩ add, fun q => ?_⟩
  · have twice := congrArg Kernel.sched (setTask_setTask k t (newTask k 0) { newTask k 0 with owner := p })
    rw [others]
    exact twice
  · have twice := congrArg Kernel.tasks (setTask_setTask k t (newTask k 0) { newTask k 0 with owner := p })
    rw [others]
    exact twice
  · rw [schedulerAdd_others add]
    refine (fills.mains q).trans ?_
    by_cases here : q = p
    · subst here
      simp
    · have same := mains q
      rw [update_of_ne here] at same ⊢
      simpa [here] using same

end

theorem processSpawnThread_enters (ret : processSpawnThread k t = .ok k') :
    ∃ p, (k.tasks k.currentTask).map Task.owner = some p ∧ Enters k t p k' ∧
      ∀ q, (k'.processes q).map Process.mainTask = (k.processes q).map Process.mainTask := by
  obtain ⟨p, process, vmm, filled, taskIndex, owner, -, fills, add⟩ := processSpawnThread_ok ret
  refine ⟨p, owner, enters_of_add { newTask k taskIndex with owner := p } ?_ ?_ ⟨rfl, rfl, rfl⟩ add, fun q => ?_⟩
  · rw [fills.others]
    rfl
  · rw [fills.others]
    rfl
  · rw [schedulerAdd_others add]
    exact fills.mains q

theorem deleteThreads_ok {fuel : Nat} (ret : deleteThreads fuel k t = .ok k') : ∃ tasks, k' = { k with tasks := tasks } := by
  induction fuel generalizing k t with
  | zero => cases ret
  | succ fuel ih =>
    rw [deleteThreads] at ret
    split at ret
    · exact ⟨k.tasks, (ok.inj ret).symm⟩
    · obtain ⟨task, -, ret⟩ := of_bind ret
      obtain ⟨tasks, rfl⟩ := ih ret
      exact ⟨tasks, rfl⟩

theorem processDelete_ok (ret : processDelete k p = .ok k') : k.processes p ≠ none ∧
    ∃ tasks, k' = { k with tasks := tasks, processes := update k.processes p none } := by
  obtain ⟨process, mid, found, deleted, ret⟩ := of_bind₂ ret
  obtain ⟨tasks, rfl⟩ := deleteThreads_ok deleted
  obtain rfl := ok.inj ret
  exact ⟨ne_none_iff_exists'.mpr ⟨process, process_eq_ok.mp found⟩, tasks, rfl⟩

theorem processWaitResume_ok {code : Nat} (ret : processWaitResume k p = .ok (k', code)) :
    (∃ process, k.processes p = some process ∧ code = process.exitCode) ∧ processDelete k p = .ok k' := by
  obtain ⟨process, deleted, record, delete, ret⟩ := of_bind₂ ret
  obtain ⟨rfl, rfl⟩ := ok_inj ret
  exact ⟨⟨process, process_eq_ok.mp record, rfl⟩, delete⟩

end Xos.Scheduler
