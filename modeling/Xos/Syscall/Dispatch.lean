import Xos.Ipc.Model
import Xos.Net.Udp
import Xos.Scheduler.SleepQueue

/-!
# System calls and interrupts (`syscall.c`, `timer.c`, `keyboard.c`, `udp.c`)

The system calls that can make a task wait, wake one up, start one or kill one, with the interrupts that
wake tasks up. A call that blocks is cut at `schedule`; what is left of it then is an action of its own.
Blocks of the kernel heap are arguments of the calls that allocate them. The values that the calls
return are left out, as are the calls on TCP sockets: `tcp_set_receiver` refuses every task.
-/
namespace Xos.Syscall

open Ipc Lib Memory Scheduler Word Function

structure KeyEvent where
  code : Int
  character : Byte
  deriving DecidableEq, Repr

def keyNone : Int := 0

def maxKeyevents : Nat := 8

/-- The variables of `keyboard.c`. The queue is seen with the memory behind it. -/
structure Keyboard where
  keyQueue : Nat → KeyEvent
  keyQueueLen : Nat
  readingTask : Nat

/-- `keyboard_read`. The first event is returned even when the queue is empty, and the loop also copies
what stands behind the last one. -/
def keyboardRead (keyboard : Keyboard) : Keyboard × KeyEvent :=
  let ev := keyboard.keyQueue 0
  if keyboard.keyQueueLen ≠ 0 then
    let moved := (List.range keyboard.keyQueueLen).foldl (fun queue i => update queue i (queue (i + 1))) keyboard.keyQueue
    ({ keyboard with keyQueue := moved, keyQueueLen := keyboard.keyQueueLen - 1 }, ev)
  else (keyboard, ev)

def keyboardSetReader (keyboard : Keyboard) (t : Nat) : Keyboard × Bool :=
  if keyboard.readingTask ≠ 0 then (keyboard, false) else ({ keyboard with readingTask := t }, true)

/-- The kernel with its pipes and servers, the sleep queue, and the variables of the devices. The ticks
are the bits of an `int`. -/
structure System where
  ipc : Ipc.State
  sleepQueue : SleepQueue
  timerTicks : Nat
  timerFrequency : Nat
  keyboard : Keyboard
  sockets : Net.Udp

namespace System

def kernel (s : System) : Kernel := s.ipc.kernel

def onIpc (s : System) (f : Ipc.State → Outcome Ipc.State) : Outcome System := do
  pure { s with ipc := ← f s.ipc }

def onKernel (s : System) (f : Kernel → Outcome Kernel) : Outcome System :=
  s.onIpc fun ipc => do pure (ipc.withKernel (← f ipc.kernel))

end System

def timerGetTicks (s : System) : Nat := sext64 (i32 s.timerTicks)

def timerMsToTicks (s : System) (ms : Nat) : Nat := u64 (ms * s.timerFrequency) / 1000

def onKeyEvent (s : System) (ev : KeyEvent) : Outcome System := do
  let keyboard := s.keyboard
  let keyboard := if keyboard.keyQueueLen < maxKeyevents then
      { keyboard with
        keyQueue := update keyboard.keyQueue keyboard.keyQueueLen ev
        keyQueueLen := keyboard.keyQueueLen + 1 }
    else keyboard
  if keyboard.readingTask ≠ 0 then
    let ipc ← s.ipc.taskSetReady keyboard.readingTask
    pure { s with ipc := ipc, keyboard := { keyboard with readingTask := 0 } }
  else
    pure { s with keyboard := keyboard }

/-- `udp_on_data`, with the task that it makes ready. -/
def udpOnData (s : System) (data : Nat → Byte) (dataLen : BitVec 16) : Outcome System := do
  let (sockets, receiver) ← Net.udpOnData s.sockets data dataLen
  let s := { s with sockets := sockets }
  if receiver ≠ 0 then
    let ipc ← s.ipc.taskSetReady receiver
    pure { s with ipc := ipc }
  else
    pure s

inductive Arrival where
  | key (ev : KeyEvent)
  | datagram (data : Nat → Byte) (dataLen : BitVec 16)

def arrive (s : System) : Arrival → Outcome System
  | .key ev => if ev.code ≠ keyNone then onKeyEvent s ev else pure s
  | .datagram data dataLen => udpOnData s data dataLen

/-- `timer_handler`. The network cards and the USB controller are polled at some of the ticks, and this is
what they bring. -/
def timerHandler (s : System) (polled : List Arrival) : Outcome System := do
  let s := { s with timerTicks := u32 (s.timerTicks + 1) }
  let (k, sleepQueue, _) ← sleepQueueWake s.kernel s.sleepQueue (timerGetTicks s)
  let s := { s with ipc := s.ipc.withKernel k, sleepQueue := sleepQueue }
  let s ← polled.foldlM arrive s
  if i32 s.timerTicks % 10 = 0 ∧ s.kernel.schedulerRunning then
    s.onKernel schedule
  else
    pure s

/-- The tick at which a call of `SYS_SLEEP` now asks to be woken up. -/
def wakeupTick (s : System) (ms : Nat) : Nat := u64 (timerGetTicks s + timerMsToTicks s ms)

/-- `SYS_SLEEP` up to the end of `schedule`. -/
def sysSleep (s : System) (ms : Nat) : Outcome System := do
  let t := s.kernel.currentTask
  let (sleepQueue, accepted) := sleepQueueEnqueue s.sleepQueue t (wakeupTick s ms)
  let s := { s with sleepQueue := sleepQueue }
  if accepted then
    s.onIpc Ipc.State.block
  else
    s.onKernel schedule

/-- `SYS_READ_KEY` up to the end of `schedule`. The call then ends as `SYS_READ_KEY_NB`. -/
def sysReadKey (s : System) : Outcome System := do
  let (keyboard, ev) := keyboardRead s.keyboard
  let s := { s with keyboard := keyboard }
  if ev.code ≠ keyNone then
    return s
  let (keyboard, set) := keyboardSetReader s.keyboard s.kernel.currentTask
  let s := { s with keyboard := keyboard }
  if !set then
    return s
  s.onIpc Ipc.State.block

def sysReadKeyNb (s : System) : System := { s with keyboard := (keyboardRead s.keyboard).1 }

/-- `SYS_SOCKET_RECEIVE` on a UDP socket, up to the end of `schedule`. The call then ends as
`SYS_SOCKET_RECEIVE_NB`. -/
def sysSocketReceive (s : System) (id dataLen : BitVec 16) : Outcome System := do
  let (received, _, sockets) := Net.udpReceive s.sockets id dataLen
  let s := { s with sockets := sockets }
  if received ≠ 0 then
    return s
  let (set, sockets) := Net.udpSetReceiver s.sockets id s.kernel.currentTask
  let s := { s with sockets := sockets }
  if !set then
    return s
  s.onIpc Ipc.State.block

/-- `SYS_SOCKET_RECEIVE_NB` on a UDP socket. -/
def sysSocketReceiveNb (s : System) (id dataLen : BitVec 16) : System :=
  { s with sockets := (Net.udpReceive s.sockets id dataLen).2.2 }

inductive SysCall where
  | exit (code : Nat)
  | readKey
  | readKeyNb
  | exec (t p : Nat) (space : AddressSpace) (stdIn stdOut : Int)
  | wait (pid : Nat)
  | pipe (q : Nat) (buf : Bytes)
  | readFd (fd len : Nat)
  | writeFd (fd : Nat) (data : Nat → Byte) (len : Nat)
  | alloc (size : Nat)
  | free (vaddr size : Nat)
  | allocShared (size handle out : Nat)
  | yield
  | sleep (ms : Nat)
  | thread (t : Nat)
  | threadJoin (t : Nat)
  | threadKill (t : Nat)
  | threadExit (retVal : Nat)
  | socketReceive (id dataLen : BitVec 16)
  | socketReceiveNb (id dataLen : BitVec 16)
  | ipcServer (identifier : List Byte)
  | ipcServerAccept (h : Nat)
  | ipcServerAcceptNb (h : Nat)
  | ipcServerConnect (identifier : List Byte) (c q₀ q₁ : Nat) (buf₀ buf₁ : Bytes)
  | ipcSend (h : Nat) (data : Nat → Byte) (len : Nat)
  | ipcRecv (h len : Nat)
  | ipcRecvNb (h len : Nat)
  | ipcChannelClose (h : Nat)

/-- `syscall_dispatch`, with the state after the call. -/
def syscallDispatch (s : System) : SysCall → Outcome System
  | .exit code => s.onKernel fun k => processExit k code
  | .readKey => sysReadKey s
  | .readKeyNb => pure (sysReadKeyNb s)
  | .exec t p space stdIn stdOut => s.onKernel fun k => do pure (← processExec k t p space stdIn stdOut).1
  | .wait pid => s.onKernel fun k => do pure (← processWait k (u32 pid)).1
  | .pipe q buf => s.onIpc fun ipc => do pure (← sysPipe ipc q buf).1
  | .readFd fd len => s.onIpc fun ipc => do pure (← sysReadFd ipc fd len).1
  | .writeFd fd data len => s.onIpc fun ipc => do pure (← sysWriteFd ipc fd data len).1
  | .alloc size => s.onKernel fun k => do pure (← sysAlloc k size).1
  | .free vaddr size => s.onKernel fun k => sysFree k vaddr size
  | .allocShared size handle out => s.onIpc fun ipc => do pure (← Ipc.sysAllocShared ipc size handle out).1
  | .yield => s.onKernel schedule
  | .sleep ms => sysSleep s ms
  | .thread t => s.onKernel fun k => processSpawnThread k t
  | .threadJoin t => s.onKernel fun k => do pure (← processJoinThread k t).1
  | .threadKill t => s.onKernel fun k => taskKill k t
  | .threadExit retVal => s.onKernel fun k => processExitThread k retVal
  | .socketReceive id dataLen => sysSocketReceive s id dataLen
  | .socketReceiveNb id dataLen => pure (sysSocketReceiveNb s id dataLen)
  | .ipcServer identifier => s.onIpc fun ipc => pure (ipcServer ipc identifier).1
  | .ipcServerAccept h => s.onIpc fun ipc => do pure (← ipcAccept ipc (toInt h)).1
  | .ipcServerAcceptNb h => s.onIpc fun ipc => do pure (← ipcAcceptNb ipc (toInt h)).1
  | .ipcServerConnect identifier c q₀ q₁ buf₀ buf₁ =>
    s.onIpc fun ipc => do pure (← ipcConnect ipc identifier c q₀ q₁ buf₀ buf₁).1
  | .ipcSend h data len => s.onIpc fun ipc => sysIpcSend ipc h data len
  | .ipcRecv h len => s.onIpc fun ipc => do pure (← sysIpcRecv ipc h len).1
  | .ipcRecvNb h len => s.onIpc fun ipc => do pure (← sysIpcRecvNb ipc h len).1
  | .ipcChannelClose h => s.onIpc fun ipc => sysIpcChannelClose ipc h

inductive Resumption where
  | readKey
  | wait (p : Nat)
  | readFd (q len : Nat)
  | socketReceive (id dataLen : BitVec 16)
  | ipcServerAccept (h : Nat)
  | ipcRecv (h len : Nat)
  deriving DecidableEq, Repr

def resume (s : System) : Resumption → Outcome System
  | .readKey => pure (sysReadKeyNb s)
  | .wait p => s.onKernel fun k => do pure (← processWaitResume k p).1
  | .readFd q len => s.onIpc fun ipc => do pure (← pipeRead ipc q (u32 len)).1
  | .socketReceive id dataLen => pure (sysSocketReceiveNb s id dataLen)
  | .ipcServerAccept h => s.onIpc fun ipc => do pure (← ipcAcceptNb ipc (toInt h)).1
  | .ipcRecv h len => s.onIpc fun ipc => do pure (← sysIpcRecvNb ipc h len).1

end Xos.Syscall
