import Xos.Memory.Vmm

/-!
# Tasks, processes and channels (`task.h`, `process.h`, `handle.h`, `channel.h`)

The records that live on the kernel heap are reached by pointer. A pointer that leads to no record,
because it is null or the record has been freed, stops the kernel where it is followed. The fields
for stacks, arguments and time measurement, the names and paths, and the `prev_in_process` link that
nothing touches are left out.
-/
namespace Xos.Scheduler

open Memory Outcome Except

inductive TaskState where
  | ready
  | running
  | blocked
  | dead
  deriving DecidableEq, Repr

structure Task where
  id : Nat
  taskIndex : Nat
  state : TaskState
  owner : Nat
  joiningTask : Nat
  retVal : Nat
  nextInProcess : Nat
  next : Nat
  prev : Nat
  deriving DecidableEq, Repr

inductive HandleType where
  | none
  | pipeRead
  | pipeWrite
  | file
  | channel
  deriving DecidableEq, Repr

structure HandleEntry where
  type : HandleType
  ptr : Nat
  deriving DecidableEq, Repr

def maxHandles : Nat := 128

structure Process where
  pid : Nat
  parentPid : Nat
  nextTaskIndex : Nat
  addressSpace : AddressSpace
  heapNext : Nat
  handles : Nat → HandleEntry
  exitCode : Nat
  mainTask : Nat
  waitingTask : Nat
  next : Nat
  prev : Nat
  firstChild : Nat
  nextSibling : Nat

/-- `channel`, without the two pipes. -/
structure Channel where
  pids : Fin 2 → Nat
  listeners : Fin 2 → Nat
  isClosed : Fin 2 → Bool

abbrev clientEnd : Fin 2 := 0

abbrev serverEnd : Fin 2 := 1

/-- The heap records and the variables of `scheduler.c` and `process_manager.c`. -/
structure Kernel where
  vmm : Vmm
  tasks : Nat → Option Task
  processes : Nat → Option Process
  channels : Nat → Option Channel
  currentTask : Nat
  taskList : Nat
  idle : Nat
  schedulerRunning : Bool
  nextId : Nat
  firstProcess : Nat
  lastProcess : Nat
  nextPid : Nat

def dangling (pointer : Nat) : Stop := .outOfBounds pointer

namespace Kernel

def task (k : Kernel) (t : Nat) : Outcome Task :=
  match k.tasks t with
  | some task => pure task
  | none => throw (dangling t)

def process (k : Kernel) (p : Nat) : Outcome Process :=
  match k.processes p with
  | some process => pure process
  | none => throw (dangling p)

def channel (k : Kernel) (c : Nat) : Outcome Channel :=
  match k.channels c with
  | some channel => pure channel
  | none => throw (dangling c)

@[simps] def setTask (k : Kernel) (t : Nat) (task : Task) : Kernel :=
  { k with tasks := Function.update k.tasks t (some task) }

@[simps] def setProcess (k : Kernel) (p : Nat) (process : Process) : Kernel :=
  { k with processes := Function.update k.processes p (some process) }

@[simps] def setChannel (k : Kernel) (c : Nat) (channel : Channel) : Kernel :=
  { k with channels := Function.update k.channels c (some channel) }

def updateTask (k : Kernel) (t : Nat) (write : Task → Task) : Outcome Kernel := do
  let task ← k.task t
  pure (k.setTask t (write task))

def updateProcess (k : Kernel) (p : Nat) (write : Process → Process) : Outcome Kernel := do
  let process ← k.process p
  pure (k.setProcess p (write process))

def updateChannel (k : Kernel) (c : Nat) (write : Channel → Channel) : Outcome Kernel := do
  let channel ← k.channel c
  pure (k.setChannel c (write channel))

variable {k k' : Kernel}

theorem task_eq_ok {t : Nat} {task : Task} : k.task t = .ok task ↔ k.tasks t = some task := by
  unfold Kernel.task
  cases k.tasks t <;> simp

theorem process_eq_ok {p : Nat} {process : Process} : k.process p = .ok process ↔ k.processes p = some process := by
  unfold Kernel.process
  cases k.processes p <;> simp

theorem channel_eq_ok {c : Nat} {channel : Channel} : k.channel c = .ok channel ↔ k.channels c = some channel := by
  unfold Kernel.channel
  cases k.channels c <;> simp

theorem updateTask_eq_ok {t : Nat} {write : Task → Task} : k.updateTask t write = .ok k' ↔
    ∃ task, k.tasks t = some task ∧ k' = k.setTask t (write task) := by
  rw [updateTask, bind_eq_ok]
  simp only [task_eq_ok, pure_eq_ok, ok.injEq, eq_comm (a := k')]

theorem of_task {α : Type} {r : α} {t : Nat} {f : Task → Outcome α} (ret : (k.task t >>= f) = .ok r) :
    ∃ task, k.tasks t = some task ∧ f task = .ok r := by
  simpa only [bind_eq_ok, task_eq_ok] using ret

theorem of_updateTask {α : Type} {r : α} {t : Nat} {write : Task → Task} {f : Kernel → Outcome α}
    (ret : (k.updateTask t write >>= f) = .ok r) : ∃ task, k.tasks t = some task ∧ f (k.setTask t (write task)) = .ok r := by
  obtain ⟨mid, written, rest⟩ := of_bind ret
  obtain ⟨task, found, rfl⟩ := updateTask_eq_ok.mp written
  exact ⟨task, found, rest⟩

theorem updateProcess_eq_ok {p : Nat} {write : Process → Process} : k.updateProcess p write = .ok k' ↔
    ∃ process, k.processes p = some process ∧ k' = k.setProcess p (write process) := by
  rw [updateProcess, bind_eq_ok]
  simp only [process_eq_ok, pure_eq_ok, ok.injEq, eq_comm (a := k')]

theorem updateChannel_eq_ok {c : Nat} {write : Channel → Channel} : k.updateChannel c write = .ok k' ↔
    ∃ channel, k.channels c = some channel ∧ k' = k.setChannel c (write channel) := by
  rw [updateChannel, bind_eq_ok]
  simp only [channel_eq_ok, pure_eq_ok, ok.injEq, eq_comm (a := k')]

end Kernel

def taskSetReady (k : Kernel) (t : Nat) : Outcome Kernel := do
  let task ← k.task t
  if task.state = .blocked then
    k.updateTask t fun task => { task with state := .ready }
  else
    pure k

def taskSetBlocked (k : Kernel) (t : Nat) : Outcome Kernel := do
  let task ← k.task t
  if task.state ≠ .dead then
    k.updateTask t fun task => { task with state := .blocked }
  else
    pure k

def schedulerAdd (k : Kernel) (t : Nat) : Outcome Kernel := do
  if k.taskList = 0 then
    let k := { k with taskList := t }
    k.updateTask t fun task => { task with next := t, prev := t }
  else
    let last := (← k.task k.taskList).prev
    let k ← k.updateTask t fun task => { task with prev := last, next := k.taskList }
    let last := (← k.task k.taskList).prev
    let k ← k.updateTask last fun task => { task with next := t }
    k.updateTask k.taskList fun task => { task with prev := t }

def schedulerRemove (k : Kernel) (t : Nat) : Outcome Kernel := do
  let task ← k.task t
  let k ← k.updateTask task.prev fun before => { before with next := task.next }
  let task ← k.task t
  k.updateTask task.next fun after => { after with prev := task.prev }

/-- `do { if (t->state == TASK_READY) return t; t = t->next; } while (t != last)`, with `none` where
the loop ends. A loop that runs longer than there are addresses does not end. -/
def scanReady (k : Kernel) (last : Nat) : Nat → Nat → Outcome (Option Nat)
  | 0, _ => throw .diverges
  | fuel + 1, t => do
    let task ← k.task t
    if task.state = .ready then
      return some t
    if task.next = last then
      return none
    scanReady k last fuel task.next

/-- `scheduler_pick_next`. The `while` loop from the current task on is the `do` loop when the ring
has another task. -/
def schedulerPickNext (k : Kernel) : Outcome Nat := do
  if k.currentTask = 0 then
    return k.taskList
  let current ← k.task k.currentTask
  if k.currentTask = k.idle ∨ current.state = .dead then
    if k.taskList = 0 then
      return k.idle
    match ← scanReady k k.taskList (2 ^ 64) k.taskList with
    | some t => return t
    | none => return k.idle
  let found ← if current.next = k.currentTask then pure none else scanReady k k.currentTask (2 ^ 64) current.next
  match found with
  | some t => return t
  | none =>
    if current.state = .ready ∨ current.state = .running then
      return k.currentTask
    return k.idle

/-- `schedule`, up to the context switch. The process that owns the next task is looked at for its
address space. -/
def schedule (k : Kernel) : Outcome Kernel := do
  if !k.schedulerRunning then
    return k
  let next ← schedulerPickNext k
  let prev := k.currentTask
  if next = 0 ∨ next = prev then
    return k
  let k ← if prev = 0 then pure k else do
    let task ← k.task prev
    if task.state = .running then k.updateTask prev fun task => { task with state := .ready } else pure k
  let k := { k with currentTask := next }
  let k ← k.updateTask next fun task => { task with state := .running }
  let owner := (← k.task next).owner
  if owner ≠ 0 then
    let _ ← k.process owner
    pure k
  else
    pure k

/-- `task_create`, on the block `t` of the heap. -/
def taskCreate (k : Kernel) (t : Nat) : Kernel :=
  { k with nextId := Word.u32 (k.nextId + 1) }.setTask t
    { id := k.nextId, taskIndex := 0, state := .ready, owner := 0, joiningTask := 0, retVal := 0,
      nextInProcess := 0, next := 0, prev := 0 }

def schedulerInit (k : Kernel) (t : Nat) : Kernel := { taskCreate k t with idle := t }

/-- `scheduler_run`. The boot code is no task, so once it has been switched away from it does not
come back. -/
def schedulerRun (k : Kernel) : Outcome Kernel := do
  let after ← schedule { k with schedulerRunning := true }
  if after.currentTask = k.currentTask then
    throw (.panic "schedule_run has returned")
  pure after

end Xos.Scheduler
