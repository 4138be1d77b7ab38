import Xos.Scheduler.Kernel

/-!
# Processes (`process_manager.c`, `handle.c`, `channel.c`)

A call that blocks is cut at the call of `schedule`, where other tasks run. Blocks of the kernel heap
are arguments of the functions that allocate them. The loading of programs, argument vectors, names
and log lines are left out.
-/
namespace Xos.Scheduler

open Memory Word Function

/-- `handle_get`, with `none` for a null pointer. -/
def handleGet (process : Process) (h : Int) : Option HandleEntry :=
  if h < 0 ∨ maxHandles ≤ h then none
  else if (process.handles h.toNat).type = .none then none
  else some (process.handles h.toNat)

def wakeListener (k : Kernel) (c : Nat) (side : Fin 2) : Outcome Kernel := do
  let channel ← k.channel c
  if channel.listeners side ≠ 0 then
    let k ← taskSetReady k (channel.listeners side)
    k.updateChannel c fun channel => { channel with listeners := update channel.listeners side 0 }
  else
    pure k

def channelClose (k : Kernel) (c pid : Nat) : Outcome Kernel := do
  let channel ← k.channel c
  if channel.pids clientEnd = pid then
    let k ← k.updateChannel c fun channel => { channel with isClosed := update channel.isClosed clientEnd true }
    wakeListener k c serverEnd
  else if channel.pids serverEnd = pid then
    let k ← k.updateChannel c fun channel => { channel with isClosed := update channel.isClosed serverEnd true }
    wakeListener k c clientEnd
  else
    pure k

/-- The body of the loop of `handle_close_all`. Closing an end of a pipe does nothing. -/
def handleClose (p i : Nat) (k : Kernel) : Outcome Kernel := do
  let process ← k.process p
  match (process.handles i).type with
  | .channel => channelClose k (process.handles i).ptr process.pid
  | .none | .pipeRead | .pipeWrite | .file => pure k

def handleCloseAll (k : Kernel) (p : Nat) : Outcome Kernel :=
  Outcome.forRange (handleClose p) maxHandles 0 k

mutual

/-- `task_kill`. The three functions call each other, `fuel` deep. -/
def killTask : Nat → Kernel → Nat → Outcome Kernel
  | 0, _, _ => throw .diverges
  | fuel + 1, k, t => do
    let k ← k.updateTask t fun task => { task with state := .dead }
    let k ← schedulerRemove k t
    let task ← k.task t
    if task.taskIndex = 0 then
      killProcess fuel k task.owner
    else if task.joiningTask ≠ 0 then
      taskSetReady k task.joiningTask
    else
      pure k

/-- `process_kill`. -/
def killProcess : Nat → Kernel → Nat → Outcome Kernel
  | 0, _, _ => throw .diverges
  | fuel + 1, k, p => do
    let k ← killThreads fuel k (← k.process p).mainTask
    let k ← handleCloseAll k p
    let process ← k.process p
    if process.waitingTask ≠ 0 then
      taskSetReady k process.waitingTask
    else
      pure k

/-- The loop of `process_kill` over the tasks of a process. -/
def killThreads : Nat → Kernel → Nat → Outcome Kernel
  | 0, _, _ => throw .diverges
  | fuel + 1, k, t => do
    if t = 0 then
      return k
    let task ← k.task t
    let k ← if task.state ≠ .dead then killTask fuel k t else pure k
    killThreads fuel k task.nextInProcess

end

def taskKill (k : Kernel) (t : Nat) : Outcome Kernel := killTask (2 ^ 64) k t

def processKill (k : Kernel) (p : Nat) : Outcome Kernel := killProcess (2 ^ 64) k p

/-- `task_exit`. The call does not return to its caller. -/
def taskExit (k : Kernel) : Outcome Kernel := do
  let k ← taskKill k k.currentTask
  schedule k

/-- `process_exit`. The code is not used. -/
def processExit (k : Kernel) (_code : Nat) : Outcome Kernel := do
  let k ← processKill k (← k.task k.currentTask).owner
  schedule k

/-- `create_process`, on the block `p` of the heap. -/
def createProcess (k : Kernel) (p : Nat) : Outcome Kernel := do
  let process : Process :=
    { pid := k.nextPid, parentPid := 0, nextTaskIndex := 0, addressSpace := ⟨0, 0⟩, heapNext := 0,
      handles := fun _ => ⟨.none, 0⟩, exitCode := 0, mainTask := 0, waitingTask := 0, next := 0, prev := 0,
      firstChild := 0, nextSibling := 0 }
  let k := { k with nextPid := u32 (k.nextPid + 1) }.setProcess p process
  if k.lastProcess ≠ 0 then
    let k ← k.updateProcess p fun process => { process with prev := k.lastProcess }
    let k ← k.updateProcess k.lastProcess fun last => { last with next := p }
    pure { k with lastProcess := p }
  else
    pure { k with firstProcess := p, lastProcess := p }

/-- The loop of `find_process`. -/
def findProcessFrom (k : Kernel) (pid : Nat) : Nat → Nat → Outcome Nat
  | 0, _ => throw .diverges
  | fuel + 1, p => do
    if p = 0 then
      return 0
    let process ← k.process p
    if process.pid = pid then
      return p
    findProcessFrom k pid fuel process.next

/-- `find_process`, with 0 for a null pointer. -/
def findProcess (k : Kernel) (pid : Nat) : Outcome Nat := findProcessFrom k pid (2 ^ 64) k.firstProcess

/-- The loop of `process_list`. Each entry is the number of a process and the state of its main task. -/
def processListFrom (k : Kernel) : Nat → Nat → Outcome (List (Nat × TaskState))
  | 0, _ => pure []
  | count + 1, p => do
    if p = 0 then
      return []
    let process ← k.process p
    let main ← k.task process.mainTask
    let rest ← processListFrom k count process.next
    pure ((process.pid, main.state) :: rest)

def processList (k : Kernel) (count : Nat) : Outcome (List (Nat × TaskState)) :=
  processListFrom k count k.firstProcess

/-- The loop of `process_delete`. -/
def deleteThreads : Nat → Kernel → Nat → Outcome Kernel
  | 0, _, _ => throw .diverges
  | fuel + 1, k, t => do
    if t = 0 then
      return k
    let task ← k.task t
    deleteThreads fuel { k with tasks := update k.tasks t none } task.nextInProcess

def processDelete (k : Kernel) (p : Nat) : Outcome Kernel := do
  let k ← deleteThreads (2 ^ 64) k (← k.process p).mainTask
  pure { k with processes := update k.processes p none }

def userStackTop : Nat := 0x0000800000000000

def userStackPages : Nat := 4

def userHeapBase : Nat := 0x0000500000000000

/-- `task_create_user_from_space`, on the block `t` of the heap. -/
def taskCreateUserFromSpace (k : Kernel) (t : Nat) (space : AddressSpace) (taskIndex : Nat) : Outcome Kernel := do
  let k ← (taskCreate k t).updateTask t fun task => { task with taskIndex := taskIndex }
  let (pmm, physStack) ← pmmAllocPages k.vmm.pmm userStackPages
  let userStackTop := sub64 userStackTop (u64 (userStackPages * pageSize * taskIndex))
  let userStackBase := sub64 userStackTop (userStackPages * pageSize)
  let vmm ← vmmMapPages { k.vmm with pmm := pmm } space userStackBase physStack userStackPages
    (pagePresent ||| pageWritable ||| pageUser)
  pure { k with vmm := vmm }

/-- `process_exec` from the point where the program has been loaded into `space`, on the blocks `t`
and `p` of the heap. -/
def processExec (k : Kernel) (t p : Nat) (space : AddressSpace) (stdIn stdOut : Int) : Outcome (Kernel × Nat) := do
  let parent ← caller k
  let k ← taskCreateUserFromSpace k t space 0
  let k ← createProcess k p
  let parentPid ← pidOf k parent
  let k ← k.updateProcess p fun process =>
    { process with addressSpace := space, parentPid := parentPid, mainTask := t, heapNext := userHeapBase }
  let k ← k.updateTask t fun task => { task with owner := p }
  let k ← k.updateProcess p fun process => { process with nextTaskIndex := 1 }
  let k ← adopt k parent p
  let k ← inherit k parent p stdIn 0
  let k ← inherit k parent p stdOut 1
  let k ← schedulerAdd k t
  pure (k, (← k.process p).pid)
where
  /-- The process of the current task, with 0 for a null pointer. -/
  caller (k : Kernel) : Outcome Nat := do
    if k.currentTask = 0 then
      return 0
    pure (← k.task k.currentTask).owner
  pidOf (k : Kernel) (parent : Nat) : Outcome Nat := do
    if parent = 0 then
      return 0
    pure (← k.process parent).pid
  /-- The new process becomes the first child of its parent. -/
  adopt (k : Kernel) (parent p : Nat) : Outcome Kernel := do
    if parent = 0 then
      return k
    let firstChild := (← k.process parent).firstChild
    let k ← k.updateProcess p fun process => { process with nextSibling := firstChild }
    k.updateProcess parent fun process => { process with firstChild := p }
  /-- The copy of a handle of the parent. -/
  inherit (k : Kernel) (parent p : Nat) (std : Int) (slot : Nat) : Outcome Kernel := do
    if std = -1 then
      return k
    -- a handle that is out of range is refused before the parent is looked at
    if std < 0 ∨ maxHandles ≤ std then
      return k
    match handleGet (← k.process parent) std with
    | some entry => k.updateProcess p fun process => { process with handles := update process.handles slot entry }
    | none => pure k

/-- `process_spawn_thread`, on the block `t` of the heap. -/
def processSpawnThread (k : Kernel) (t : Nat) : Outcome Kernel := do
  let p := (← k.task k.currentTask).owner
  if p = 0 then
    throw assertFailed
  let process ← k.process p
  let k ← k.updateProcess p fun process => { process with nextTaskIndex := u32 (process.nextTaskIndex + 1) }
  let k ← taskCreateUserFromSpace k t process.addressSpace process.nextTaskIndex
  let k ← k.updateTask t fun task => { task with owner := p }
  schedulerAdd k t

/-- How a call of `process_wait` goes on: it has returned, or waits for the process at a pointer. -/
inductive Waiting where
  | returned (code : Nat)
  | blocked (p : Nat)
  deriving DecidableEq, Repr

/-- `process_wait` up to the end of `schedule`. -/
def processWait (k : Kernel) (pid : Nat) : Outcome (Kernel × Waiting) := do
  let p ← findProcess k pid
  if p = 0 then
    return (k, .returned 0xFFFFFFFF)
  let process ← k.process p
  if process.waitingTask ≠ 0 then
    return (k, .returned 0xFFFFFFFF)
  let t := k.currentTask
  let k ← k.updateProcess p fun process => { process with waitingTask := t }
  let k ← taskSetBlocked k t
  let k ← schedule k
  pure (k, .blocked p)

/-- `process_wait` once the waiting task runs again. -/
def processWaitResume (k : Kernel) (p : Nat) : Outcome (Kernel × Nat) := do
  let code := (← k.process p).exitCode
  let k ← processDelete k p
  pure (k, code)

/-- `process_join_thread` up to the end of `schedule`, with the value it returns, or `none` when it waits.
It then returns `ret_val`. -/
def processJoinThread (k : Kernel) (t : Nat) : Outcome (Kernel × Option Nat) := do
  let task ← k.task t
  if task.state = .dead then
    return (k, some task.retVal)
  if task.joiningTask ≠ 0 then
    return (k, some (2 ^ 64 - 1))
  let current := k.currentTask
  let k ← k.updateTask t fun task => { task with joiningTask := current }
  let k ← taskSetBlocked k current
  let k ← schedule k
  pure (k, none)

/-- `process_exit_thread`. The call does not return to its caller. -/
def processExitThread (k : Kernel) (retVal : Nat) : Outcome Kernel := do
  let k ← k.updateTask k.currentTask fun task => { task with retVal := retVal }
  taskExit k

end Xos.Scheduler
