import Xos.Lib.Bytes
import Xos.Syscall.Model

/-!
# Pipes, channels and servers (`pipe.c`, `channel.c`, `handle.c`)

The entry points of `channel.c` take a handle of any kind and follow its pointer as one to a `channel`.
When the pointer leads to a pipe, the fields are read from and written to the first bytes of its buffer,
at the offsets that `channel` has them.

A call that blocks is cut at `schedule`. Blocks of the kernel heap are arguments of the functions that
allocate them, and what a block held before is the buffer of a new pipe. Log lines are left out.
-/
namespace Xos.Ipc

open Lib Memory Scheduler Syscall Word Function

abbrev Byte := BitVec 8

def pipeBufSize : Nat := 4096

structure Pipe where
  buf : Bytes
  readPos : Nat
  writePos : Nat
  count : Nat
  refCount : Int
  listener : Nat

namespace Pipe

/-- The loop of `pipe_write` from byte `i` on, with so many bytes left. -/
def store (data : Nat → Byte) : Nat → Nat → Pipe → Pipe
  | 0, _, pipe => pipe
  | left + 1, i, pipe =>
    -- drop if full
    if pipeBufSize ≤ pipe.count then pipe
    else store data left (i + 1)
      { pipe with
        buf := update pipe.buf pipe.writePos (data i)
        writePos := (pipe.writePos + 1) % pipeBufSize
        count := pipe.count + 1 }

/-- The loop of `pipe_read`, with the bytes that are read. -/
def fetch : Nat → Pipe → Pipe × List Byte
  | 0, pipe => (pipe, [])
  | left + 1, pipe =>
    if pipe.count = 0 then (pipe, [])
    else
      let rest := fetch left { pipe with readPos := (pipe.readPos + 1) % pipeBufSize, count := pipe.count - 1 }
      (rest.1, pipe.buf pipe.readPos :: rest.2)

end Pipe

/-- `channel`, with its two pipes. -/
structure ChannelRecord extends Channel where
  p : Fin 2 → Nat

/-- The first bytes of a pipe, read as a `channel`. -/
def Pipe.asChannel (pipe : Pipe) : ChannelRecord where
  pids side := pipe.buf.load (4 * side.val) 4
  p side := pipe.buf.load (8 + 8 * side.val) 8
  listeners side := pipe.buf.load (24 + 8 * side.val) 8
  isClosed side := pipe.buf (40 + side.val) != 0

def maxServers : Nat := 32

def maxPending : Nat := 16

structure Server where
  identifier : Nat
  listener : Nat
  incommingConnections : Nat → Nat
  head : Nat
  tail : Nat
  count : Nat

/-- The kernel with the pipes on its heap, the `p` fields of the channels, and `s_servers`. -/
structure State where
  kernel : Kernel
  pipes : Nat → Option Pipe
  ends : Nat → Fin 2 → Nat
  servers : Nat → Server

namespace State

def pipe (s : State) (q : Nat) : Outcome Pipe :=
  match s.pipes q with
  | some pipe => pure pipe
  | none => throw (dangling q)

@[simps] def setPipe (s : State) (q : Nat) (pipe : Pipe) : State :=
  { s with pipes := update s.pipes q (some pipe) }

@[simps] def withKernel (s : State) (k : Kernel) : State := { s with kernel := k }

@[simps] def setServer (s : State) (i : Nat) (server : Server) : State :=
  { s with servers := update s.servers i server }

/-- The object at `c`, as a channel. -/
def channel (s : State) (c : Nat) : Outcome ChannelRecord :=
  match s.kernel.channels c, s.pipes c with
  | some channel, _ => pure { channel with p := s.ends c }
  | none, some pipe => pure pipe.asChannel
  | none, none => throw (dangling c)

/-- `ch->listeners[side] = t`. -/
def setListener (s : State) (c : Nat) (side : Fin 2) (t : Nat) : Outcome State :=
  match s.kernel.channels c, s.pipes c with
  | some channel, _ =>
    pure (s.withKernel (s.kernel.setChannel c { channel with listeners := update channel.listeners side t }))
  | none, some pipe => pure (s.setPipe c { pipe with buf := pipe.buf.store (24 + 8 * side.val) 8 t })
  | none, none => throw (dangling c)

/-- `ch->is_closed[side] = true`. -/
def setClosed (s : State) (c : Nat) (side : Fin 2) : Outcome State :=
  match s.kernel.channels c, s.pipes c with
  | some channel, _ =>
    pure (s.withKernel (s.kernel.setChannel c { channel with isClosed := update channel.isClosed side true }))
  | none, some pipe => pure (s.setPipe c { pipe with buf := update pipe.buf (40 + side.val) 1 })
  | none, none => throw (dangling c)

/-- `scheduler_current()->owner`, and its record. -/
def current (s : State) : Outcome (Nat × Process) := do
  let p ← processCurrent s.kernel
  pure (p, ← s.kernel.process p)

def taskSetReady (s : State) (t : Nat) : Outcome State := do
  pure (s.withKernel (← Scheduler.taskSetReady s.kernel t))

/-- `task_set_blocked` on the current task, and `schedule`. -/
def block (s : State) : Outcome State := do
  let k ← taskSetBlocked s.kernel s.kernel.currentTask
  pure (s.withKernel (← schedule k))

end State

/-- `pipe_create`, on the block `q` of the heap. -/
def pipeCreate (s : State) (q : Nat) (buf : Bytes) : State :=
  s.setPipe q { buf := buf, readPos := 0, writePos := 0, count := 0, refCount := 1, listener := 0 }

def pipeRetain (s : State) (q : Nat) : Outcome State := do
  let pipe ← s.pipe q
  pure (s.setPipe q { pipe with refCount := pipe.refCount + 1 })

def pipeWrite (s : State) (q : Nat) (data : Nat → Byte) (len : Nat) : Outcome State := do
  let pipe ← s.pipe q
  let s := s.setPipe q (pipe.store data len 0)
  if pipe.listener ≠ 0 then
    let s ← s.taskSetReady pipe.listener
    let pipe ← s.pipe q
    pure (s.setPipe q { pipe with listener := 0 })
  else
    pure s

/-- `pipe_read`, with the bytes it puts into the buffer. Their number is the result. -/
def pipeRead (s : State) (q maxLen : Nat) : Outcome (State × List Byte) := do
  let pipe ← s.pipe q
  let (pipe, bytes) := pipe.fetch maxLen
  pure (s.setPipe q pipe, bytes)

def pipeAddListener (s : State) (q t : Nat) : Outcome (State × Bool) := do
  let pipe ← s.pipe q
  if pipe.listener ≠ 0 then
    return (s, false)
  pure (s.setPipe q { pipe with listener := t }, true)

/-- `handle_alloc`, with -1 when the table is full. -/
def handleAlloc (k : Kernel) (p : Nat) (type : HandleType) (ptr : Nat) : Outcome (Kernel × Int) := do
  let process ← k.process p
  match (List.range maxHandles).find? fun i => decide ((process.handles i).type = .none) with
  | some i => pure (k.setProcess p { process with handles := update process.handles i ⟨type, ptr⟩ }, i)
  | none => pure (k, -1)

def wakeListener (s : State) (c : Nat) (side : Fin 2) : Outcome State := do
  let ch ← s.channel c
  if ch.listeners side ≠ 0 then
    let s ← s.taskSetReady (ch.listeners side)
    s.setListener c side 0
  else
    pure s

/-- The conversion of an `int` to `uint`. -/
def toUint (n : Int) : Nat := (n % 2 ^ 32).toNat

/-- The branch of `channel_send` for the process at the end `side`. -/
def sendFrom (s : State) (c : Nat) (side peer : Fin 2) (data : Nat → Byte) (len : Int) : Outcome State := do
  let ch ← s.channel c
  let s ← pipeWrite s (ch.p side) data (toUint len)
  wakeListener s c peer

def channelSend (s : State) (h : Int) (data : Nat → Byte) (len : Int) : Outcome State := do
  let (_, process) ← s.current
  match handleGet process h with
  | none => pure s
  | some entry =>
    if entry.ptr = 0 then
      return s
    let ch ← s.channel entry.ptr
    if ch.pids clientEnd = process.pid then
      sendFrom s entry.ptr clientEnd serverEnd data len
    else if ch.pids serverEnd = process.pid then
      sendFrom s entry.ptr serverEnd clientEnd data len
    else
      pure s

/-- What `channel_recv` returns: -1, or the number of the bytes that it puts into the buffer. -/
inductive Received where
  | closed
  | bytes (read : List Byte)
  deriving DecidableEq, Repr

def Received.value : Received → Int
  | .closed => -1
  | .bytes read => read.length

/-- The branch of `channel_recv` for the process whose peer is at the end `peer`. -/
def recvFrom (s : State) (c : Nat) (peer : Fin 2) (len : Int) : Outcome (State × Received) := do
  let ch ← s.channel c
  if ch.isClosed peer then
    return (s, .closed)
  let (s, read) ← pipeRead s (ch.p peer) (toUint len)
  pure (s, .bytes read)

def channelRecv (s : State) (h : Int) (len : Int) : Outcome (State × Received) := do
  let (_, process) ← s.current
  match handleGet process h with
  | none => pure (s, .bytes [])
  | some entry =>
    if entry.ptr = 0 then
      return (s, .bytes [])
    let ch ← s.channel entry.ptr
    if ch.pids clientEnd = process.pid then
      recvFrom s entry.ptr serverEnd len
    else if ch.pids serverEnd = process.pid then
      recvFrom s entry.ptr clientEnd len
    else
      pure (s, .bytes [])

def listenAt (s : State) (c : Nat) (side : Fin 2) (t : Nat) : Outcome (State × Bool) := do
  let ch ← s.channel c
  if ch.listeners side ≠ 0 then
    return (s, false)
  pure (← s.setListener c side t, true)

def channelSetListener (s : State) (h : Int) (t : Nat) : Outcome (State × Bool) := do
  let process ← s.kernel.process (← s.kernel.task t).owner
  match handleGet process h with
  | none => pure (s, false)
  | some entry =>
    if entry.ptr = 0 then
      return (s, false)
    let ch ← s.channel entry.ptr
    if process.pid = ch.pids clientEnd then
      listenAt s entry.ptr clientEnd t
    else if process.pid = ch.pids serverEnd then
      listenAt s entry.ptr serverEnd t
    else
      pure (s, false)

def channelClose (s : State) (c pid : Nat) : Outcome State := do
  let ch ← s.channel c
  if ch.pids clientEnd = pid then
    let s ← s.setClosed c clientEnd
    wakeListener s c serverEnd
  else if ch.pids serverEnd = pid then
    let s ← s.setClosed c serverEnd
    wakeListener s c clientEnd
  else
    pure s

/-- `hash64`, of the bytes before the terminating zero. -/
def hash64 (identifier : List Byte) : Nat :=
  identifier.foldl (fun hash c => u64 ((hash ^^^ c.toNat) * 1099511628211)) 1469598103934665603

/-- `find_server`, with the index of the server. -/
def findServer (s : State) (identifier : List Byte) : Option Nat :=
  (List.range maxServers).find? fun i => decide ((s.servers i).identifier = hash64 identifier)

def createServer (s : State) : Option Nat :=
  (List.range maxServers).find? fun i => decide ((s.servers i).identifier = 0)

def getServer (h : Int) : Option Nat := if h < 0 ∨ maxServers ≤ h then none else some h.toNat

/-- `dequeue_incomming`, with 0 for a null pointer. -/
def dequeueIncomming (s : State) (i : Nat) : State × Nat :=
  let server := s.servers i
  if server.count = 0 then (s, 0)
  else
    (s.setServer i { server with head := (server.head + 1) % maxPending, count := server.count - 1 },
      server.incommingConnections server.head)

def enqueueIncomming (s : State) (i c : Nat) : State :=
  let server := s.servers i
  if server.count = maxPending then s
  else
    s.setServer i
      { server with
        incommingConnections := update server.incommingConnections server.tail c
        tail := (server.tail + 1) % maxPending
        count := server.count + 1 }

def ipcServer (s : State) (identifier : List Byte) : State × Int :=
  match findServer s identifier, createServer s with
  | some _, _ => (s, -1)
  | none, none => (s, -1)
  | none, some i =>
    (s.setServer i { s.servers i with identifier := hash64 identifier, listener := s.kernel.currentTask }, i)

/-- The end of `ipc_accept` and `ipc_accept_nb`, once a connection has been taken from the queue. -/
def acceptChannel (s : State) (c : Nat) : Outcome (State × Int) := do
  let (p, process) ← s.current
  let k ← s.kernel.updateChannel c fun channel => { channel with pids := update channel.pids serverEnd process.pid }
  let (k, h) ← handleAlloc k p .channel c
  pure (s.withKernel k, h)

inductive Progress (α : Type) where
  | returned (value : α)
  | blocked
  deriving DecidableEq, Repr

/-- `ipc_accept` up to the end of `schedule`. -/
def ipcAccept (s : State) (h : Int) : Outcome (State × Progress Int) := do
  match getServer h with
  | none => pure (s, .returned (-1))
  | some i =>
    let (s, c) := dequeueIncomming s i
    if c = 0 then
      if (s.servers i).listener ≠ 0 then
        return (s, .returned (-1))
      let s := s.setServer i { s.servers i with listener := s.kernel.currentTask }
      pure (← s.block, .blocked)
    else
      let (s, value) ← acceptChannel s c
      pure (s, .returned value)

/-- `ipc_accept_nb`, which is also `ipc_accept` once the task runs again. -/
def ipcAcceptNb (s : State) (h : Int) : Outcome (State × Int) := do
  match getServer h with
  | none => pure (s, -1)
  | some i =>
    let (s, c) := dequeueIncomming s i
    if c = 0 then
      return (s, -1)
    acceptChannel s c

def wakeServer (s : State) (i : Nat) : Outcome State := do
  if (s.servers i).listener ≠ 0 then
    let s ← s.taskSetReady (s.servers i).listener
    pure (s.setServer i { s.servers i with listener := 0 })
  else
    pure s

/-- `ipc_connect`, on the blocks `c`, `q₀` and `q₁` of the heap. -/
def ipcConnect (s : State) (identifier : List Byte) (c q₀ q₁ : Nat) (buf₀ buf₁ : Bytes) : Outcome (State × Int) := do
  match findServer s identifier with
  | none => pure (s, -1)
  | some i =>
    let (p, process) ← s.current
    let s := pipeCreate (pipeCreate s q₀ buf₀) q₁ buf₁
    let pids := update (fun _ => 0) clientEnd process.pid
    let k := s.kernel.setChannel c { pids := pids, listeners := fun _ => 0, isClosed := fun _ => false }
    let ends := update (fun _ => q₁) clientEnd q₀
    let s := { s.withKernel k with ends := update s.ends c ends }
    let s := enqueueIncomming s i c
    let s ← wakeServer s i
    let (k, h) ← handleAlloc s.kernel p .channel c
    pure (s.withKernel k, h)

/-- `SYS_PIPE`, on the block `q` of the heap, with the handles of the two ends. -/
def sysPipe (s : State) (q : Nat) (buf : Bytes) : Outcome (State × Option (Int × Int)) := do
  let s := pipeCreate s q buf
  let p ← processCurrent s.kernel
  let (k, readFd) ← handleAlloc s.kernel p .pipeRead q
  let (k, writeFd) ← handleAlloc k p .pipeWrite q
  let s := s.withKernel k
  if readFd < 0 ∨ writeFd < 0 then
    return (s, none)
  pure (← pipeRetain s q, some (readFd, writeFd))

def pipeHandle (s : State) (type : HandleType) (fd : Nat) : Outcome (Option Nat) := do
  let (_, process) ← s.current
  match handleGet process (toInt fd) with
  | none => pure none
  | some entry => pure (if entry.type = type then some entry.ptr else none)

/-- `SYS_READ_FD` up to the end of `schedule`, with the bytes that are read, or `none` for -1. The call
then ends with `pipe_read`. -/
def sysReadFd (s : State) (fd len : Nat) : Outcome (State × Progress (Option (List Byte))) := do
  match ← pipeHandle s .pipeRead fd with
  | none => pure (s, .returned none)
  | some q =>
    let (s, read) ← pipeRead s q (u32 len)
    if read ≠ [] then
      return (s, .returned (some read))
    let (s, listening) ← pipeAddListener s q s.kernel.currentTask
    if !listening then
      return (s, .returned (some []))
    pure (← s.block, .blocked)

/-- `SYS_WRITE_FD`, with the length it returns, or `none` for -1. -/
def sysWriteFd (s : State) (fd : Nat) (data : Nat → Byte) (len : Nat) : Outcome (State × Option Nat) := do
  match ← pipeHandle s .pipeWrite fd with
  | none => pure (s, none)
  | some q => pure (← pipeWrite s q data (u32 len), some len)

def sysIpcSend (s : State) (h : Nat) (data : Nat → Byte) (len : Nat) : Outcome State :=
  channelSend s (toInt h) data (toInt len)

/-- `SYS_IPC_RECV` up to the end of `schedule`. The call then ends as `SYS_IPC_RECV_NB`. -/
def sysIpcRecv (s : State) (h len : Nat) : Outcome (State × Progress Received) := do
  let (s, received) ← channelRecv s (toInt h) (toInt len)
  if received.value ≠ 0 then
    return (s, .returned received)
  let (s, listening) ← channelSetListener s (toInt h) s.kernel.currentTask
  if !listening then
    return (s, .returned (.bytes []))
  pure (← s.block, .blocked)

def sysIpcRecvNb (s : State) (h len : Nat) : Outcome (State × Received) :=
  channelRecv s (toInt h) (toInt len)

def sysIpcChannelClose (s : State) (h : Nat) : Outcome State := do
  let (_, process) ← s.current
  match handleGet process (toInt h) with
  | none => pure s
  | some entry => channelClose s entry.ptr process.pid

/-- `SYS_IPC_PID`, with `none` for -1. -/
def sysIpcPid (s : State) (h : Nat) : Outcome (Option Nat) := do
  let (_, process) ← s.current
  match handleGet process (toInt h) with
  | none => pure none
  | some entry =>
    let ch ← s.channel entry.ptr
    if process.pid = ch.pids clientEnd then
      return some (ch.pids serverEnd)
    if process.pid = ch.pids serverEnd then
      return some (ch.pids clientEnd)
    pure none

/-- The kernel with every object that a handle can lead to seen as a channel. -/
def State.asChannels (s : State) : Kernel :=
  { s.kernel with channels := fun c => (s.channel c).toOption.map ChannelRecord.toChannel }

/-- `SYS_ALLOC_SHARED`, which only reads the channel. -/
def sysAllocShared (s : State) (size handle out : Nat) : Outcome (State × Nat) := do
  let (k, vaddr) ← Syscall.sysAllocShared s.asChannels size handle out
  pure (s.withKernel { k with channels := s.kernel.channels }, vaddr)

end Xos.Ipc
