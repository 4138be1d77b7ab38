import Xos.Ipc.Waiters
import Xos.Scheduler.Creation
import Xos.Scheduler.Running
import Xos.Syscall.Dispatch

/-!
# Sleeping (`SYS_SLEEP`)

A sleeping task is blocked like any task that waits, and whoever has it registered can wake it up. One that is
registered nowhere is woken up by the timer only.
-/
namespace Xos.Syscall

open Ipc Lib Memory Outcome Scheduler Word Relation Function Option

variable {s s' : System} {k k' : Kernel} {t w : Nat}

structure Paged (k k' : Kernel) : Prop where
  others : k' = { k with vmm := k'.vmm, processes := k'.processes }
  waiting : ∀ p, (k'.processes p).map Process.waitingTask = (k.processes p).map Process.waitingTask

namespace Paged

theorem refl (k : Kernel) : Paged k k := ⟨rfl, fun _ => rfl⟩

theorem vmm (k : Kernel) (vmm : Vmm) : Paged k { k with vmm := vmm } := ⟨rfl, fun _ => rfl⟩

theorem trans {k k' k'' : Kernel} (first : Paged k k') (second : Paged k' k'') : Paged k k'' := by
  refine ⟨?_, fun p => (second.waiting p).trans (first.waiting p)⟩
  rw [second.others, first.others]

theorem withChannels (paged : Paged k k') (channels : Nat → Option Channel) :
    Paged { k with channels := channels } { k' with channels := channels } := by
  refine ⟨?_, paged.waiting⟩
  rw [paged.others]

theorem mapAtHeapNext {p phys pages : Nat} : Ensures (mapAtHeapNext k p phys pages) fun res => Paged k res.1 := by
  refine .read fun process _ => ?_
  refine .read fun mapped _ => ?_
  refine .read fun k' written => ?_
  obtain ⟨others, waiting⟩ := updateProcess_view Process.waitingTask written fun _ => rfl
  exact .pure ((vmm k mapped).trans ⟨others ▸ rfl, waiting⟩)

theorem sysAlloc {size : Nat} : Ensures (sysAlloc k size) fun res => Paged k res.1 := by
  refine .guard (refl k) fun _ => ?_
  apply Ensures.read
  rintro ⟨pmm, phys⟩ _
  refine .guard (vmm k _) fun _ => ?_
  refine .read fun p _ => ?_
  exact mapAtHeapNext.mono fun _ mapped => (vmm k _).trans mapped

theorem sysFree {vaddr size : Nat} : Ensures (sysFree k vaddr size) (Paged k) := by
  refine .guard (refl k) fun _ => ?_
  refine .read fun p _ => ?_
  refine .read fun process _ => ?_
  refine .read fun unmapped _ => ?_
  exact .pure (vmm k unmapped)

theorem allocShared {size handle : Nat} : Ensures (allocShared k size handle) fun res => Paged k res.1 := by
  refine .guard (refl k) fun _ => ?_
  refine .read fun p _ => ?_
  refine .read fun process _ => ?_
  refine .read fun client _ => ?_
  refine .guard (refl k) fun _ => ?_
  apply Ensures.read
  rintro ⟨pmm, phys⟩ _
  refine .guard (vmm k _) fun _ => ?_
  refine .bind mapAtHeapNext fun own mapped => ?_
  refine .bind mapAtHeapNext fun shared mappedThere => ?_
  exact .pure ((vmm k _).trans (mapped.trans mappedThere))

theorem sysAllocShared {size handle out : Nat} : Ensures (Syscall.sysAllocShared k size handle out) fun res => Paged k res.1 := by
  refine .bind allocShared ?_
  rintro ⟨k', views⟩ paged
  dsimp only
  split
  · exact .pure paged
  · apply Ensures.read
    intro p _
    refine .read fun process _ => ?_
    refine .read fun stored _ => ?_
    exact .pure (paged.trans (vmm k' stored))

theorem dormant (paged : Paged k k') (dormant : k.Dormant t) : k'.Dormant t := by
  have waiting (p : Nat) (process : Process) (found : k'.processes p = some process) : process.waitingTask ≠ t := by
    have same := paged.waiting p
    rw [found, map_some] at same
    obtain ⟨before, atStart, kept⟩ := map_eq_some_iff.mp same.symm
    exact kept ▸ dormant.waiting p before atStart
  rw [paged.others]
  exact { dormant with waiting := waiting }

end Paged

def nextTick (s : System) : Nat := timerGetTicks { s with timerTicks := u32 (s.timerTicks + 1) }

/-- A task that does not run, is not to run, and is registered nowhere but in the sleep queue, not before
a tick. -/
structure System.Dormant (s : System) (t w : Nat) : Prop where
  ipc : s.ipc.Dormant t
  reader : s.keyboard.readingTask ≠ t
  receivers : ∀ i, (s.sockets i).receiver ≠ t
  queue : ∀ entry ∈ s.sleepQueue.items, entry.t = t → w ≤ entry.wakeTick

namespace System.Dormant

theorem onIpc {f : Ipc.State → Outcome Ipc.State} (dormant : s.Dormant t w) (kept : Ensures (f s.ipc) (·.Dormant t)) :
    Ensures (s.onIpc f) (·.Dormant t w) :=
  .bind kept fun _ ipc => .pure { dormant with ipc := ipc }

theorem onKernel {f : Kernel → Outcome Kernel} (dormant : s.Dormant t w) (kept : Ensures (f s.ipc.kernel) (·.Dormant t)) :
    Ensures (s.onKernel f) (·.Dormant t w) :=
  dormant.onIpc (.bind kept fun _ kernel => .pure (dormant.ipc.withKernel kernel))

theorem dropped {σ α : Type} {x : Outcome (σ × α)} {post : σ → Prop} (kept : Ensures x (post ·.1)) :
    Ensures (do pure (← x).1) post := .bind kept fun _ holds => .pure holds

theorem setSocket {i : Nat} {socket : Net.UdpSocket} (dormant : s.Dormant t w) (silent : socket.receiver ≠ t) :
    System.Dormant { s with sockets := update s.sockets i socket } t w := by
  refine { dormant with receivers := fun j => ?_ }
  by_cases here : j = i
  · simpa [here] using silent
  · simpa [here] using dormant.receivers j

theorem keyboardRead_reader (keyboard : Keyboard) : (keyboardRead keyboard).1.readingTask = keyboard.readingTask := by
  unfold keyboardRead
  split <;> rfl

section

variable (dormant : s.Dormant t w)
include dormant

theorem onKeyEvent {ev : KeyEvent} : Ensures (onKeyEvent s ev) (·.Dormant t w) := by
  unfold Syscall.onKeyEvent
  dsimp only
  generalize written : (if s.keyboard.keyQueueLen < maxKeyevents then _ else s.keyboard : Keyboard) = keyboard
  have reader : keyboard.readingTask ≠ t := by
    rw [← written]
    split
    · exact dormant.reader
    · exact dormant.reader
  apply Ensures.ite
  · intro _
    exact .bind (dormant.ipc.taskSetReady reader) fun ipc woken =>
      .pure { dormant with ipc := woken, reader := dormant.ipc.kernel.null.symm }
  · intro _
    exact .pure { dormant with reader := reader }

theorem netUdpOnData {data : Nat → Byte} {dataLen : BitVec 16} : Ensures (Net.udpOnData s.sockets data dataLen) fun received =>
    System.Dormant { s with sockets := received.1 } t w ∧ received.2 ≠ t := by
  have null : 0 ≠ t := dormant.ipc.kernel.null.symm
  refine .ite (fun _ => .pure ⟨dormant, null⟩) fun _ => ?_
  dsimp only
  split
  · exact .pure ⟨dormant, null⟩
  next i _ =>
    refine .ite (fun _ => .pure ⟨dormant, null⟩) fun _ => ?_
    exact .read fun _ _ => .pure ⟨dormant.setSocket null, dormant.receivers i⟩

theorem udpOnData {data : Nat → Byte} {dataLen : BitVec 16} : Ensures (udpOnData s data dataLen) (·.Dormant t w) := by
  refine .bind dormant.netUdpOnData ?_
  rintro ⟨sockets, receiver⟩ ⟨after, silent⟩
  apply Ensures.ite
  · intro _
    exact .bind (after.ipc.taskSetReady silent) fun ipc woken => .pure { after with ipc := woken }
  · intro _
    exact .pure after

theorem arrive {arrival : Arrival} : Ensures (arrive s arrival) (·.Dormant t w) := by
  cases arrival with
  | key ev =>
    apply Ensures.ite
    · intro _
      exact dormant.onKeyEvent
    · intro _
      exact .pure dormant
  | datagram => exact dormant.udpOnData

theorem arriveAll {polled : List Arrival} : Ensures (polled.foldlM Syscall.arrive s) (·.Dormant t w) := by
  induction polled generalizing s with
  | nil => exact .pure dormant
  | cons arrival polled ih =>
    rw [List.foldlM_cons]
    exact .bind dormant.arrive fun s dormant => ih dormant

theorem timerHandler {polled : List Arrival} (before : nextTick s < w) : Ensures (timerHandler s polled) (·.Dormant t w) := by
  refine .bind (dormant.ipc.kernel.sleepQueueWake before dormant.queue) ?_
  rintro ⟨k, sleepQueue, handed⟩ ⟨kernel, queue⟩
  have woken : System.Dormant { s with timerTicks := u32 (s.timerTicks + 1), ipc := s.ipc.withKernel k, sleepQueue := sleepQueue } t w :=
    { dormant with ipc := dormant.ipc.withKernel kernel, queue := queue }
  refine .bind woken.arriveAll fun s dormant => ?_
  apply Ensures.ite
  · intro _
    exact dormant.onKernel dormant.ipc.kernel.schedule
  · intro _
    exact .pure dormant

theorem sysSleep {ms : Nat} : Ensures (sysSleep s ms) (·.Dormant t w) := by
  have queued : System.Dormant
      { s with sleepQueue := (sleepQueueEnqueue s.sleepQueue s.kernel.currentTask (wakeupTick s ms)).1 } t w :=
    { dormant with queue := sleepQueueEnqueue_later dormant.queue fun same => absurd same dormant.ipc.kernel.current }
  apply Ensures.ite
  · intro _
    exact queued.onIpc queued.ipc.block
  · intro _
    exact queued.onKernel queued.ipc.kernel.schedule

theorem sysReadKeyNb : (sysReadKeyNb s).Dormant t w :=
  { dormant with reader := (keyboardRead_reader s.keyboard).symm ▸ dormant.reader }

theorem sysReadKey : Ensures (sysReadKey s) (·.Dormant t w) := by
  have read : (Syscall.sysReadKeyNb s).Dormant t w := dormant.sysReadKeyNb
  refine .guard read fun _ => ?_
  have registered : System.Dormant
      { s with keyboard := (keyboardSetReader (keyboardRead s.keyboard).1 s.kernel.currentTask).1 } t w := by
    refine { dormant with reader := ?_ }
    unfold keyboardSetReader
    split
    · exact read.reader
    · exact dormant.ipc.kernel.current
  refine .guard registered fun _ => ?_
  exact registered.onIpc registered.ipc.block

theorem sysSocketReceiveNb {id dataLen : BitVec 16} : (sysSocketReceiveNb s id dataLen).Dormant t w := by
  unfold Syscall.sysSocketReceiveNb Net.udpReceive
  split
  · exact dormant
  next i _ => exact dormant.setSocket (dormant.receivers i)

theorem setReceiver (id : BitVec 16) :
    System.Dormant { s with sockets := (Net.udpSetReceiver s.sockets id s.kernel.currentTask).2 } t w := by
  unfold Net.udpSetReceiver
  split
  · exact dormant
  · split
    · exact dormant
    · exact dormant.setSocket dormant.ipc.kernel.current

theorem sysSocketReceive {id dataLen : BitVec 16} : Ensures (sysSocketReceive s id dataLen) (·.Dormant t w) := by
  have read : (Syscall.sysSocketReceiveNb s id dataLen).Dormant t w := dormant.sysSocketReceiveNb
  refine .guard read fun _ => ?_
  have registered := read.setReceiver id
  refine .guard registered fun _ => ?_
  exact registered.onIpc registered.ipc.block

end

end System.Dormant

/-- The task is in no slot for a task that waits, and in no entry of the sleep queue. -/
structure System.Unregistered (s : System) (t : Nat) : Prop where
  kernel : s.kernel.Unregistered t
  pipes : ∀ q pipe, s.ipc.pipes q = some pipe → pipe.listener ≠ t
  servers : ∀ i, (s.ipc.servers i).listener ≠ t
  reader : s.keyboard.readingTask ≠ t
  receivers : ∀ i, (s.sockets i).receiver ≠ t
  queue : ∀ entry ∈ s.sleepQueue.items, entry.t ≠ t

/-- System calls come from tasks other than the idle one, once the scheduler runs. -/
structure System.FromTask (s : System) : Prop where
  running : s.kernel.schedulerRunning = true
  null : s.kernel.tasks 0 = none
  idle : s.kernel.idle ≠ 0
  current : s.kernel.currentTask ≠ 0
  other : s.kernel.currentTask ≠ s.kernel.idle

def SysCall.created : SysCall → Option Nat
  | .exec t .. | .thread t => some t
  | _ => none

/-- The caller of `SYS_SLEEP` is registered nowhere, and who wakes up the listener of a channel has a
handle for a channel. -/
def SysCall.Quiet (s : System) : SysCall → Prop
  | .sleep _ => s.Unregistered s.kernel.currentTask
  | .ipcSend h _ _ | .ipcChannelClose h => s.ipc.LeadsToChannel (toInt h)
  | _ => True

/-- Each call registers its caller and no one else, and wakes up whom it finds registered. -/
theorem System.Dormant.dispatch {call : SysCall} (dormant : s.Dormant t w) (quiet : call.Quiet s)
    (other : call.created ≠ some t) : Ensures (syscallDispatch s call) (·.Dormant t w) := by
  have kernel := dormant.ipc.kernel
  have ipc := dormant.ipc
  unfold syscallDispatch
  cases call with
  | exit => exact dormant.onKernel kernel.processExit
  | readKey => exact dormant.sysReadKey
  | readKeyNb => exact .pure dormant.sysReadKeyNb
  | exec u => exact dormant.onKernel (dropped (kernel.processExec fun same => other (congrArg some same)))
  | wait => exact dormant.onKernel (dropped kernel.processWait)
  | pipe => exact dormant.onIpc (dropped ipc.sysPipe)
  | readFd => exact dormant.onIpc (dropped ipc.sysReadFd)
  | writeFd => exact dormant.onIpc (dropped ipc.sysWriteFd)
  | alloc => exact dormant.onKernel (dropped (Paged.sysAlloc.mono fun _ paged => paged.dormant kernel))
  | free => exact dormant.onKernel (Paged.sysFree.mono fun _ paged => paged.dormant kernel)
  | allocShared =>
    apply dormant.onIpc
    apply dropped
    refine .bind Paged.sysAllocShared fun res paged => .pure (ipc.withKernel ?_)
    exact (paged.withChannels s.ipc.kernel.channels).dormant kernel
  | yield => exact dormant.onKernel kernel.schedule
  | sleep => exact dormant.sysSleep
  | thread u => exact dormant.onKernel (kernel.processSpawnThread fun same => other (congrArg some same))
  | threadJoin => exact dormant.onKernel (dropped kernel.processJoinThread)
  | threadKill => exact dormant.onKernel kernel.taskKill
  | threadExit => exact dormant.onKernel kernel.processExitThread
  | socketReceive => exact dormant.sysSocketReceive
  | socketReceiveNb => exact .pure dormant.sysSocketReceiveNb
  | ipcServer => exact dormant.onIpc (.pure ipc.ipcServer)
  | ipcServerAccept => exact dormant.onIpc (dropped ipc.ipcAccept)
  | ipcServerAcceptNb => exact dormant.onIpc (dropped ipc.ipcAcceptNb)
  | ipcServerConnect => exact dormant.onIpc (dropped ipc.ipcConnect)
  | ipcSend => exact dormant.onIpc (ipc.channelSend quiet)
  | ipcRecv => exact dormant.onIpc (dropped ipc.sysIpcRecv)
  | ipcRecvNb => exact dormant.onIpc (dropped ipc.channelRecv)
  | ipcChannelClose => exact dormant.onIpc (ipc.sysIpcChannelClose quiet)

theorem System.Dormant.resume {rest : Resumption} (dormant : s.Dormant t w) : Ensures (resume s rest) (·.Dormant t w) := by
  have ipc := dormant.ipc
  unfold Syscall.resume
  cases rest with
  | readKey => exact .pure dormant.sysReadKeyNb
  | wait => exact dormant.onKernel (dropped ipc.kernel.processWaitResume)
  | readFd => exact dormant.onIpc (dropped ipc.pipeRead)
  | socketReceive => exact .pure dormant.sysSocketReceiveNb
  | ipcServerAccept => exact dormant.onIpc (dropped ipc.ipcAcceptNb)
  | ipcRecv => exact dormant.onIpc (dropped ipc.channelRecv)

/-- A call of `SYS_SLEEP` that is accepted leaves its caller blocked, and registered nowhere but in the
queue. -/
theorem sysSleep_dormant {ms : Nat} (user : s.FromTask) (unregistered : s.Unregistered s.kernel.currentTask)
    (accepted : (sleepQueueEnqueue s.sleepQueue s.kernel.currentTask (wakeupTick s ms)).2 = true)
    (ret : sysSleep s ms = .ok s') : s'.Dormant s.kernel.currentTask (wakeupTick s ms) := by
  rw [sysSleep] at ret
  dsimp only at ret
  rw [if_pos accepted] at ret
  obtain ⟨ipc, blocks, ret⟩ := of_bind ret
  obtain ⟨mid, k, blocked, switched, same⟩ := of_bind₂ blocks
  have halted := unregistered.kernel.taskSetBlocked user.current user.current user.other.symm blocked
  have away : k.currentTask ≠ s.kernel.currentTask := by
    replace blocked : taskSetBlocked s.kernel s.kernel.currentTask = .ok mid := blocked
    obtain ⟨tasks, rfl, others⟩ := taskSetBlocked_tasks blocked
    have null : tasks 0 = none := (others 0 user.current.symm).trans user.null
    have leaves := schedule_leaves switched user.running user.current (congrArg (Option.map _) null) user.idle user.other
    apply leaves
    intro state found
    obtain ⟨task, record, rfl⟩ := map_eq_some_iff.mp found
    exact halted.halted task record
  have queue : ∀ entry ∈ (sleepQueueEnqueue s.sleepQueue s.kernel.currentTask (wakeupTick s ms)).1.items,
      entry.t = s.kernel.currentTask → wakeupTick s ms ≤ entry.wakeTick :=
    sleepQueueEnqueue_later (fun entry inside here => absurd here (unregistered.queue entry inside)) fun _ => Nat.le_refl _
  rw [← Except.ok.inj ret, ← Except.ok.inj same]
  exact ⟨⟨⟨(halted.schedule switched).1, away⟩, unregistered.pipes, unregistered.servers⟩, unregistered.reader,
    unregistered.receivers, queue⟩

/-- A call, the end of one that was blocked, something that comes in from a device, an interrupt of the
timer, or anything else. -/
inductive Event where
  | call (call : SysCall)
  | resume (rest : Resumption)
  | arrival (arrival : Arrival)
  | tick (polled : List Arrival)
  | other

/-- The tasks that sleep, with their wake ticks, after a call. A task that is new on its block does not sleep. -/
def SysCall.sleepers (s : System) (asleep : Nat → Option Nat) : SysCall → Nat → Option Nat
  | .sleep ms =>
    if (sleepQueueEnqueue s.sleepQueue s.kernel.currentTask (wakeupTick s ms)).2 then
      update asleep s.kernel.currentTask (some (wakeupTick s ms))
    else asleep
  | .exec t .. | .thread t => update asleep t none
  | _ => asleep

/-- The system, and the tasks that have blocked in `SYS_SLEEP` and whose wake ticks the timer has not
reached. -/
structure SleeperLedger where
  system : System
  asleep : Nat → Option Nat

/-- Tasks, who runs, who is registered and what sleeps are left alone. A socket that is new has no receiver. -/
structure Bystander (s s' : System) : Prop where
  tasks : s'.kernel.tasks = s.kernel.tasks
  channels : s'.kernel.channels = s.kernel.channels
  current : s'.kernel.currentTask = s.kernel.currentTask
  idle : s'.kernel.idle = s.kernel.idle
  waiting : ∀ p, (s'.kernel.processes p).map Process.waitingTask = (s.kernel.processes p).map Process.waitingTask
  pipes : s'.ipc.pipes = s.ipc.pipes
  servers : s'.ipc.servers = s.ipc.servers
  reader : s'.keyboard.readingTask = s.keyboard.readingTask
  receivers : ∀ i, (s'.sockets i).receiver = (s.sockets i).receiver ∨ (s'.sockets i).receiver = 0
  queue : s'.sleepQueue = s.sleepQueue

inductive SystemStep : Event → SleeperLedger → SleeperLedger → Prop
  | call {l : SleeperLedger} {call : SysCall} {s' : System} (user : l.system.FromTask)
      (fresh : ∀ t, call.created = some t → l.system.kernel.tasks t = none)
      (returned : syscallDispatch l.system call = .ok s') :
      SystemStep (.call call) l ⟨s', call.sleepers l.system l.asleep⟩
  | resume {l : SleeperLedger} {rest : Resumption} {s' : System} (returned : resume l.system rest = .ok s') :
      SystemStep (.resume rest) l ⟨s', l.asleep⟩
  | arrival {l : SleeperLedger} {arrival : Arrival} {s' : System} (returned : arrive l.system arrival = .ok s') :
      SystemStep (.arrival arrival) l ⟨s', l.asleep⟩
  | tick {l : SleeperLedger} {polled : List Arrival} {s' : System} (returned : timerHandler l.system polled = .ok s') :
      SystemStep (.tick polled) l ⟨s', fun t => (l.asleep t).filter fun w => nextTick l.system < w⟩
  | other {l : SleeperLedger} {s' : System} (rest : Bystander l.system s') : SystemStep .other l ⟨s', l.asleep⟩

def Event.Quiet (s : System) : Event → Prop
  | .call made => made.Quiet s
  | .resume _ | .arrival _ | .tick _ | .other => True

/-- No task that sleeps has become ready. -/
def SleeperLedger.Asleep (l : SleeperLedger) : Prop :=
  ∀ t w task, l.asleep t = some w → l.system.kernel.tasks t = some task → task.state ≠ .ready ∧ task.state ≠ .running

theorem System.Dormant.bystander (dormant : s.Dormant t w) (rest : Bystander s s') : s'.Dormant t w := by
  have kernel : s'.ipc.kernel.Dormant t := by
    refine ⟨⟨⟨rest.tasks ▸ dormant.ipc.kernel.joining, fun p process found => ?_, rest.channels ▸ dormant.ipc.kernel.listening⟩,
      dormant.ipc.kernel.null, rest.current ▸ dormant.ipc.kernel.started, rest.idle ▸ dormant.ipc.kernel.idle,
      rest.tasks ▸ dormant.ipc.kernel.halted⟩, rest.current ▸ dormant.ipc.kernel.current⟩
    have same := rest.waiting p
    rw [System.kernel, found, map_some] at same
    obtain ⟨before, atStart, kept⟩ := map_eq_some_iff.mp same.symm
    exact kept ▸ dormant.ipc.kernel.waiting p before atStart
  refine ⟨⟨kernel, rest.pipes ▸ dormant.ipc.pipes, rest.servers ▸ dormant.ipc.servers⟩, rest.reader ▸ dormant.reader,
    fun i => ?_, rest.queue ▸ dormant.queue⟩
  rcases rest.receivers i with same | none
  · exact same ▸ dormant.receivers i
  · exact none ▸ dormant.ipc.kernel.null.symm

/-- Whoever sleeps after a call slept before it, or has just fallen asleep. -/
theorem SysCall.sleepers_cases {call : SysCall} {asleep : Nat → Option Nat} (after : call.sleepers s asleep t = some w) :
    (asleep t = some w ∧ call.created ≠ some t) ∨ ∃ ms, call = .sleep ms ∧ t = s.kernel.currentTask ∧ w = wakeupTick s ms ∧
      (sleepQueueEnqueue s.sleepQueue s.kernel.currentTask (wakeupTick s ms)).2 = true := by
  have kept (u : Nat) (after : update asleep u none t = some w) : asleep t = some w ∧ some u ≠ some t := by
    by_cases here : t = u
    · simp [here] at after
    · exact ⟨by simpa [here] using after, by simpa using Ne.symm here⟩
  unfold SysCall.sleepers at after
  split at after
  next ms =>
    split at after
    next accepted =>
      by_cases here : t = s.kernel.currentTask
      · subst here
        rw [update_self, some.injEq] at after
        exact .inr ⟨ms, rfl, rfl, after.symm, accepted⟩
      · rw [update_of_ne here] at after
        exact .inl ⟨after, by simp [SysCall.created]⟩
    next => exact .inl ⟨after, by simp [SysCall.created]⟩
  next u _ _ _ _ => exact .inl (kept u after)
  next u => exact .inl (kept u after)
  next plain notExec notThread =>
    refine .inl ⟨after, fun creates => ?_⟩
    unfold SysCall.created at creates
    split at creates
    · exact notExec _ _ _ _ _ rfl
    · exact notThread _ rfl
    · cases creates

private theorem SystemStep.dormant {e : Event} {l l' : SleeperLedger}
    (dormant : ∀ t w, l.asleep t = some w → l.system.Dormant t w) (step : SystemStep e l l') (quiet : e.Quiet l.system) :
    ∀ t w, l'.asleep t = some w → l'.system.Dormant t w := by
  intro t w asleep
  cases step with
  | call user fresh ret =>
    rcases SysCall.sleepers_cases asleep with ⟨before, other⟩ | ⟨ms, rfl, rfl, rfl, accepted⟩
    · exact (dormant t w before).dispatch quiet other _ ret
    · exact sysSleep_dormant user quiet accepted ret
  | resume ret => exact (dormant t w asleep).resume _ ret
  | arrival ret => exact (dormant t w asleep).arrive _ ret
  | tick ret =>
    obtain ⟨before, ahead⟩ := Option.filter_eq_some_iff.mp asleep
    exact (dormant t w before).timerHandler (by simpa using ahead) _ ret
  | other rest => exact (dormant t w asleep).bystander rest

/-- In every run in which whoever goes to sleep is registered nowhere, and in which listeners of channels
are woken up through handles for channels, no task becomes ready before its wake tick. -/
theorem sleepers_stay_asleep (s : System) (l : SleeperLedger)
    (run : ReflTransGen (fun l l' => ∃ e, SystemStep e l l' ∧ Event.Quiet l.system e) ⟨s, fun _ => none⟩ l) : l.Asleep := by
  have dormant := invariant_of_run (fun l : SleeperLedger => ∀ t w, l.asleep t = some w → l.system.Dormant t w)
    (fun _ _ kept step => step.elim fun _ allowed => allowed.1.dormant kept allowed.2) run (fun _ _ none => by cases none)
  intro t w task asleep found
  have halted := (dormant t w asleep).ipc.kernel.halted task found
  rcases halted with blocked | dead
  · simp [blocked]
  · simp [dead]

/-- Two tasks, of which the first runs, and a timer with 1000 ticks in a second. -/
def twoTasks : System where
  ipc := { emptyState with kernel := firstRuns }
  sleepQueue := ⟨fun _ => ⟨0, 0⟩, 0⟩
  timerTicks := 0
  timerFrequency := 1000
  keyboard := ⟨fun _ => ⟨keyNone, 0⟩, 0, 0⟩
  sockets := Net.udpInit

instance (s : System) : Decidable s.FromTask :=
  decidable_of_iff (s.kernel.schedulerRunning = true ∧ (s.kernel.tasks 0).isNone = true ∧ s.kernel.idle ≠ 0 ∧
      s.kernel.currentTask ≠ 0 ∧ s.kernel.currentTask ≠ s.kernel.idle)
    ⟨fun ⟨running, null, idle, current, other⟩ => ⟨running, Option.isNone_iff_eq_none.mp null, idle, current, other⟩,
      fun user => ⟨user.running, Option.isNone_iff_eq_none.mpr user.null, user.idle, user.current, user.other⟩⟩

theorem twoTasks_fromTask : twoTasks.FromTask := by
  decide +kernel

theorem server_sleeps : (syscallDispatch twoTasks (.ipcServer [0x61]) >>= fun served => syscallDispatch served (.sleep 500) >>= fun slept =>
    syscallDispatch slept (.ipcServerConnect [0x61] 0x60 0x100 0x200 (fun _ => 0) (fun _ => 0)) >>= fun connected =>
    pure (decide (served.FromTask ∧ slept.FromTask), (SysCall.sleep 500).sleepers served (fun _ => none) 0x20,
      connected.timerTicks, (connected.kernel.tasks 0x20).map Task.state)) =
    .ok (true, some 500, 0, some .ready) := by
  decide +kernel

/-- The first task makes itself a server and sleeps for 500 ms. The second task connects before the first
tick, and the first one is ready. -/
theorem connection_wakes_sleeper : ∃ l, ReflTransGen (fun l l' => ∃ e, SystemStep e l l') ⟨twoTasks, fun _ => none⟩ l ∧
    l.system.timerTicks = 0 ∧ l.asleep 0x20 = some 500 ∧ ¬l.Asleep := by
  obtain ⟨served, slept, serve, sleep, rest⟩ := of_bind₂ server_sleeps
  obtain ⟨connected, connect, seen⟩ := of_bind rest
  simp only [ok_pair, Prod.mk.injEq, Option.map_eq_some_iff, decide_eq_true_eq] at seen
  obtain ⟨⟨user, peer⟩, asleep, ticks, task, found, ready⟩ := seen
  have serves : SystemStep (.call (.ipcServer [0x61])) ⟨twoTasks, fun _ => none⟩ ⟨served, fun _ => none⟩ :=
    .call twoTasks_fromTask (fun _ none => by cases none) serve
  have sleeps : SystemStep (.call (.sleep 500)) ⟨served, fun _ => none⟩ ⟨slept, (SysCall.sleep 500).sleepers served fun _ => none⟩ :=
    .call user (fun _ none => by cases none) sleep
  have connects : SystemStep (.call (.ipcServerConnect [0x61] 0x60 0x100 0x200 (fun _ => 0) fun _ => 0))
      ⟨slept, (SysCall.sleep 500).sleepers served fun _ => none⟩ ⟨connected, (SysCall.sleep 500).sleepers served fun _ => none⟩ :=
    .call peer (fun _ none => by cases none) connect
  refine ⟨_, .tail (.tail (.single ⟨_, serves⟩) ⟨_, sleeps⟩) ⟨_, connects⟩, ticks, asleep, fun stays => ?_⟩
  exact (stays 0x20 500 task asleep found).1 ready

theorem twoTasks_unregistered : twoTasks.Unregistered 0x20 := by
  have null : 0 ≠ 0x20 := by decide
  refine ⟨⟨fun u task found => ?_, fun p process found => ?_, fun c channel side found => ?_⟩, fun q pipe found => ?_,
    fun i => null, null, fun i => null, fun entry inside => ?_⟩
  · have found : firstRuns.tasks u = some task := found
    have silent : task.joiningTask = 0 := by
      simp only [firstRuns] at found
      split at found
      · exact some.inj found ▸ rfl
      · split at found
        · exact some.inj found ▸ rfl
        · split at found
          · exact some.inj found ▸ rfl
          · cases found
    exact silent ▸ null
  · have silent : process.waitingTask = 0 := by
      have found : twoOwners.processes p = some process := found
      simp only [twoOwners, Kernel.setProcess_processes, update_apply] at found
      split at found
      · exact some.inj found ▸ rfl
      · split at found
        · exact some.inj found ▸ rfl
        · cases found
    exact silent ▸ null
  · cases found
  · cases found
  · cases inside

theorem first_sleeps : (syscallDispatch twoTasks (.sleep 500) >>= fun slept => timerHandler slept [] >>= fun ticked =>
    pure ((SysCall.sleep 500).sleepers twoTasks (fun _ => none) 0x20, nextTick slept, (ticked.kernel.tasks 0x20).map Task.state)) =
    .ok (some 500, 1, some .blocked) := by
  decide +kernel

/-- The first task sleeps for 500 ms, and is blocked after the first tick. -/
theorem sleeper_blocked_after_tick : ∃ l, ReflTransGen (fun l l' => ∃ e, SystemStep e l l' ∧ Event.Quiet l.system e)
      ⟨twoTasks, fun _ => none⟩ l ∧ l.asleep 0x20 = some 500 ∧
        (l.system.kernel.tasks 0x20).map Task.state = some .blocked ∧ l.Asleep := by
  obtain ⟨slept, ticked, sleep, tick, seen⟩ := of_bind₂ first_sleeps
  simp only [ok_pair, Prod.mk.injEq] at seen
  obtain ⟨asleep, first, blocked⟩ := seen
  have sleeps : SystemStep (.call (.sleep 500)) ⟨twoTasks, fun _ => none⟩ ⟨slept, (SysCall.sleep 500).sleepers twoTasks fun _ => none⟩ :=
    .call twoTasks_fromTask (fun _ none => by cases none) sleep
  have ticks := SystemStep.tick (l := ⟨slept, (SysCall.sleep 500).sleepers twoTasks fun _ => none⟩) tick
  have steps : ReflTransGen (fun l l' => ∃ e, SystemStep e l l' ∧ Event.Quiet l.system e) ⟨twoTasks, fun _ => none⟩ _ :=
    .tail (.single ⟨_, sleeps, twoTasks_unregistered⟩) ⟨_, ticks, trivial⟩
  refine ⟨_, steps, ?_, blocked, sleepers_stay_asleep twoTasks _ steps⟩
  dsimp only
  rw [asleep, first]
  rfl

end Xos.Syscall
