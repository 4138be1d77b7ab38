import Xos.Ipc.Pipe

/-!
# Channels (`channel.c`)

A channel is a pipe in each direction. `channel_recv` looks at the flag of the other end before it looks at the pipe, so
an end that closes cuts off what has not been read yet.
-/
namespace Xos.Ipc

open Lib Memory Scheduler Syscall Word Relation Outcome Function Option List Except

variable {s s' : State} {c : Nat} {side : Fin 2} {channel : Channel}

def peer (side : Fin 2) : Fin 2 := if side = clientEnd then serverEnd else clientEnd

@[simp] theorem peer_client : peer clientEnd = serverEnd := rfl

@[simp] theorem peer_server : peer serverEnd = clientEnd := rfl

@[simp] theorem peer_peer (side : Fin 2) : peer (peer side) = side := by
  revert side
  decide

theorem peer_ne (side : Fin 2) : peer side ≠ side := by
  revert side
  decide

theorem eq_or_eq_peer (side other : Fin 2) : other = side ∨ other = peer side := by
  revert side other
  decide

/-- The end that a process has, as the entry points look for it. -/
def sideOf (channel : Channel) (pid : Nat) : Option (Fin 2) :=
  if channel.pids clientEnd = pid then some clientEnd
  else if channel.pids serverEnd = pid then some serverEnd
  else none

variable {pid : Nat}

theorem sideOf_eq_none (none : sideOf channel pid = none) : channel.pids clientEnd ≠ pid ∧ channel.pids serverEnd ≠ pid := by
  rw [sideOf] at none
  split at none
  next => cases none
  next notClient =>
    split at none
    next => cases none
    next notServer => exact ⟨notClient, notServer⟩

/-- The handle of the current process leads to the channel at `c`, and the process has this end. -/
def State.Endpoint (s : State) (h : Int) (c : Nat) (side : Fin 2) : Prop :=
  ∃ p process entry channel, s.current = .ok (p, process) ∧ handleGet process h = some entry ∧ entry.ptr = c ∧ c ≠ 0 ∧
    s.kernel.channels c = some channel ∧ sideOf channel process.pid = some side

theorem State.channel_eq (found : s.kernel.channels c = some channel) : s.channel c = .ok { channel with p := s.ends c } := by
  rw [State.channel, found]
  rfl

theorem sideOf_branch {α : Type} (has : sideOf channel pid = some side) (f : Fin 2 → Fin 2 → α) (z : α) :
    (if channel.pids clientEnd = pid then f clientEnd serverEnd
      else if channel.pids serverEnd = pid then f serverEnd clientEnd else z) = f side (peer side) := by
  rw [sideOf] at has
  split at has
  next client => rw [if_pos client, ← some.inj has, peer_client]
  next notClient =>
    split at has
    next server => rw [if_neg notClient, if_pos server, ← some.inj has, peer_server]
    next => cases has

variable {h : Int} {data : Nat → Byte}

theorem channelSend_eq (endpoint : s.Endpoint h c side) (data : Nat → Byte) (len : Int) :
    channelSend s h data len = sendFrom s c side (peer side) data len := by
  obtain ⟨p, process, entry, channel, current, handle, rfl, nonnull, found, has⟩ := endpoint
  rw [channelSend, current, ok_bind]
  simp only [handle, if_neg nonnull, State.channel_eq found, ok_bind]
  exact sideOf_branch has (fun side peer => sendFrom s entry.ptr side peer data len) (pure s)

theorem channelRecv_eq (endpoint : s.Endpoint h c side) (len : Int) : channelRecv s h len = recvFrom s c (peer side) len := by
  obtain ⟨p, process, entry, channel, current, handle, rfl, nonnull, found, has⟩ := endpoint
  rw [channelRecv, current, ok_bind]
  simp only [handle, if_neg nonnull, State.channel_eq found, ok_bind]
  exact sideOf_branch has (fun _ peer => recvFrom s entry.ptr peer len) (pure (s, .bytes []))

theorem channelSetListener_eq (endpoint : s.Endpoint h c side) :
    channelSetListener s h s.kernel.currentTask = listenAt s c side s.kernel.currentTask := by
  obtain ⟨p, process, entry, channel, current, handle, rfl, nonnull, found, has⟩ := endpoint
  obtain ⟨p', process', running, owner, same⟩ := of_bind₂ current
  obtain ⟨rfl, rfl⟩ := ok_inj same
  obtain ⟨task, here, running⟩ := of_bind running
  obtain rfl := ok.inj running
  rw [channelSetListener, here, ok_bind, owner, ok_bind]
  simp only [handle, if_neg nonnull, State.channel_eq found, ok_bind, eq_comm (a := process'.pid)]
  exact sideOf_branch has (fun side _ => listenAt s entry.ptr side s.kernel.currentTask) (pure (s, false))

theorem taskSetReady_tasks {k k' : Kernel} {t : Nat} (ret : Scheduler.taskSetReady k t = .ok k') :
    ∃ tasks, k' = { k with tasks := tasks } := by
  obtain ⟨task, -, ret⟩ := of_bind ret
  split at ret
  · obtain ⟨task', -, rfl⟩ := Kernel.updateTask_eq_ok.mp ret
    exact ⟨_, rfl⟩
  · exact ⟨k.tasks, (ok.inj ret).symm⟩

theorem wakeListener_ok (found : s.kernel.channels c = some channel) (ret : wakeListener s c side = .ok s') :
    ∃ tasks, s' = s.withKernel ({ s.kernel with tasks := tasks }.setChannel c
      { channel with listeners := update channel.listeners side 0 }) := by
  rw [wakeListener, State.channel_eq found, ok_bind] at ret
  split at ret
  next listening =>
    obtain ⟨woken, wake, ret⟩ := of_bind ret
    obtain ⟨k, ready, rfl⟩ := State.taskSetReady_eq_ok.mp wake
    obtain ⟨tasks, rfl⟩ := taskSetReady_tasks ready
    refine ⟨tasks, ?_⟩
    rw [State.setListener] at ret
    simp only [State.withKernel_kernel, found] at ret
    exact (ok.inj ret).symm
  next silent =>
    have silent : channel.listeners side = 0 := by simpa using silent
    refine ⟨s.kernel.tasks, ?_⟩
    have same : { channel with listeners := update channel.listeners side 0 } = channel := by
      rw [← silent, update_eq_self]
    rw [← ok.inj ret, same, Kernel.setChannel, ← found, update_eq_self]
    rfl

structure SameChannel (c : Nat) (s s' : State) : Prop where
  record : (s'.kernel.channels c).map (fun channel => (channel.pids, channel.isClosed)) =
    (s.kernel.channels c).map fun channel => (channel.pids, channel.isClosed)
  ends : s'.ends = s.ends

theorem pipeWrite_tasks {q len : Nat} (ret : pipeWrite s q data len = .ok s') : ∃ pipe tasks, s.pipes q = some pipe ∧
      s' = (s.withKernel { s.kernel with tasks := tasks }).setPipe q { pipe.store data len 0 with listener := 0 } := by
  obtain ⟨pipe, k, found, rfl, woken⟩ := pipeWrite_ok ret
  rcases woken with ⟨-, rfl⟩ | ready
  · exact ⟨pipe, s.kernel.tasks, found, rfl⟩
  · obtain ⟨tasks, rfl⟩ := taskSetReady_tasks ready
    exact ⟨pipe, tasks, found, rfl⟩

variable {len : Int}

section

variable (endpoint : s.Endpoint h c side) (ret : channelSend s h data len = .ok s')
include endpoint ret

theorem channelSend_written : ∃ channel pipe tasks, s.kernel.channels c = some channel ∧
      s.pipes (s.ends c side) = some pipe ∧
      s' = (s.withKernel ({ s.kernel with tasks := tasks }.setChannel c
        { channel with listeners := update channel.listeners (peer side) 0 })).setPipe (s.ends c side)
          { pipe.store data (toUint len) 0 with listener := 0 } := by
  rw [channelSend_eq endpoint] at ret
  obtain ⟨-, -, -, channel, -, -, -, -, found, -⟩ := endpoint
  rw [sendFrom, State.channel_eq found, ok_bind] at ret
  obtain ⟨mid, written, wake⟩ := of_bind ret
  obtain ⟨pipe, tasks, atEnd, rfl⟩ := pipeWrite_tasks written
  obtain ⟨tasks', rfl⟩ := wakeListener_ok (by exact found) wake
  exact ⟨channel, pipe, tasks', found, atEnd, rfl⟩

theorem channelSend_ok : SameChannel c s s' ∧
      ∃ mid, pipeWrite s (s.ends c side) data (toUint len) = .ok mid ∧ s'.pipes = mid.pipes := by
  obtain ⟨channel, pipe, tasks, found, -, after⟩ := channelSend_written endpoint ret
  refine ⟨⟨?_, ?_⟩, ?_⟩
  · simp [after, found]
  · rw [after]
    rfl
  · rw [channelSend_eq endpoint, sendFrom, State.channel_eq found, ok_bind] at ret
    obtain ⟨mid, written, wake⟩ := of_bind ret
    obtain ⟨_, _, -, rfl⟩ := pipeWrite_tasks written
    obtain ⟨_, rfl⟩ := wakeListener_ok (by exact found) wake
    exact ⟨_, written, rfl⟩

end

theorem channelRecv_ok {received : Received} (endpoint : s.Endpoint h c side)
    (ret : channelRecv s h len = .ok (s', received)) : ∃ channel, s.kernel.channels c = some channel ∧
      (channel.isClosed (peer side) = true ∧ s' = s ∧ received = .closed ∨
        channel.isClosed (peer side) = false ∧ ∃ read, received = .bytes read ∧
          pipeRead s (s.ends c (peer side)) (toUint len) = .ok (s', read)) := by
  rw [channelRecv_eq endpoint] at ret
  obtain ⟨-, -, -, channel, -, -, -, -, found, -⟩ := endpoint
  refine ⟨channel, found, ?_⟩
  rw [recvFrom, State.channel_eq found, ok_bind] at ret
  split at ret
  next closed =>
    obtain ⟨rfl, rfl⟩ := ok_inj ret
    exact .inl ⟨closed, rfl, rfl⟩
  next opened =>
    obtain ⟨⟨after, read⟩, fetched, ret⟩ := of_bind ret
    obtain ⟨rfl, rfl⟩ := ok_inj ret
    exact .inr ⟨by simpa using opened, read, rfl, fetched⟩

/-- The branch of `channel_close` for the process at the end `side`. -/
def closeFrom (s : State) (c : Nat) (side peer : Fin 2) : Outcome State := do
  let s ← s.setClosed c side
  wakeListener s c peer

theorem channelClose_eq (found : s.kernel.channels c = some channel) (has : sideOf channel pid = some side) :
    channelClose s c pid = closeFrom s c side (peer side) := by
  rw [channelClose, State.channel_eq found, ok_bind]
  exact sideOf_branch has (closeFrom s c) (pure s)

theorem closeFrom_ok {other : Fin 2} (found : s.kernel.channels c = some channel) (ret : closeFrom s c side other = .ok s') :
    ∃ tasks, s' = s.withKernel ({ s.kernel with tasks := tasks }.setChannel c
      { channel with
        isClosed := update channel.isClosed side true
        listeners := update channel.listeners other 0 }) := by
  obtain ⟨closed, set, wake⟩ := of_bind ret
  simp only [State.setClosed, found] at set
  obtain rfl := ok.inj set
  obtain ⟨tasks, rfl⟩ := wakeListener_ok (update_self ..) wake
  refine ⟨tasks, ?_⟩
  simp only [State.withKernel, Kernel.setChannel, update_idem]

theorem channelClose_ok (found : s.kernel.channels c = some channel) (has : sideOf channel pid = some side)
    (ret : channelClose s c pid = .ok s') : (s'.kernel.channels c).map (fun channel => (channel.pids, channel.isClosed)) =
      some (channel.pids, update channel.isClosed side true) ∧ s'.ends = s.ends ∧ s'.pipes = s.pipes := by
  rw [channelClose_eq found has] at ret
  obtain ⟨tasks, rfl⟩ := closeFrom_ok found ret
  exact ⟨by simp, rfl, rfl⟩

/-- The state, with what each end has put into its pipe, what it has received, what it had put into the
pipe when it closed, and whether a receive has returned -1 to it. -/
structure ChannelLedger where
  state : State
  sent : Fin 2 → List Byte
  received : Fin 2 → List Byte
  ended : Fin 2 → Option (List Byte)
  refused : Fin 2 → Bool

inductive ChannelCall where
  | send (side : Fin 2)
  | recv (side : Fin 2)
  | close (side : Fin 2)
  | other
  deriving DecidableEq, Repr

/-- A call on the channel at `c`, or anything else that leaves the channel and its pipes alone. An end is
closed by a system call or when its process is killed. -/
inductive ChannelStep (c : Nat) : ChannelCall → ChannelLedger → ChannelLedger → Prop
  | send {l : ChannelLedger} {s' : State} {side : Fin 2} {h : Int} {pipe : Pipe} {data : Nat → Byte} {len : Int}
      (endpoint : l.state.Endpoint h c side) (found : l.state.pipes (l.state.ends c side) = some pipe)
      (returned : channelSend l.state h data len = .ok s') :
      ChannelStep c (.send side) l
        { l with state := s', sent := update l.sent side (l.sent side ++ pipe.accepts data (toUint len)) }
  | recv {l : ChannelLedger} {s' : State} {side : Fin 2} {h : Int} {len : Int} {read : List Byte}
      (endpoint : l.state.Endpoint h c side) (returned : channelRecv l.state h len = .ok (s', .bytes read)) :
      ChannelStep c (.recv side) l
        { l with state := s', received := update l.received side (l.received side ++ read) }
  | refuse {l : ChannelLedger} {s' : State} {side : Fin 2} {h : Int} {len : Int} (endpoint : l.state.Endpoint h c side)
      (returned : channelRecv l.state h len = .ok (s', .closed)) :
      ChannelStep c (.recv side) l { l with state := s', refused := update l.refused side true }
  | close {l : ChannelLedger} {s' : State} {side : Fin 2} {channel : Channel} {pid : Nat}
      (found : l.state.kernel.channels c = some channel) (has : sideOf channel pid = some side)
      (returned : channelClose l.state c pid = .ok s') :
      ChannelStep c (.close side) l
        { l with state := s', ended := update l.ended side (some ((l.ended side).getD (l.sent side))) }
  | other {l : ChannelLedger} {s' : State} (same : SameChannel c l.state s')
      (pipes : ∀ side, (s'.pipes (l.state.ends c side)).map Pipe.ring = (l.state.pipes (l.state.ends c side)).map Pipe.ring) :
      ChannelStep c .other l { l with state := s' }

/-- What an end has received, and behind it what is in the pipe, is what the other end has put there. -/
def ChannelLedger.InOrder (l : ChannelLedger) (c : Nat) : Prop :=
  ∀ side, ∃ items, l.state.Holds (l.state.ends c side) items ∧ l.received (peer side) ++ items = l.sent side

/-- An end is told -1 only when the other end has closed and everything it put into the pipe before that
has been received. -/
def ChannelLedger.Drained (l : ChannelLedger) : Prop :=
  ∀ side, l.refused side = true → ∃ bytes, l.ended (peer side) = some bytes ∧ bytes <+: l.received side

def ChannelLedger.Clean (l : ChannelLedger) (c : Nat) : ChannelCall → Prop
  | .close side => l.ended side ≠ none ∨ l.state.Holds (l.state.ends c side) []
  | .send _ | .recv _ | .other => True

structure ChannelLedger.Kept (l : ChannelLedger) (c : Nat) : Prop where
  inOrder : l.InOrder c
  apart : l.state.ends c clientEnd ≠ l.state.ends c serverEnd
  flags : ∃ channel, l.state.kernel.channels c = some channel ∧ ∀ side, channel.isClosed side = true → l.ended side ≠ none
  ended : ∀ side bytes, l.ended side = some bytes → bytes <+: l.received (peer side)
  drained : l.Drained

variable {ended : Fin 2 → Option (List Byte)} {pipe : Pipe}

section Kept

variable {l : ChannelLedger}

theorem flags_of_same (same : SameChannel c s s')
    (flags : ∃ channel, s.kernel.channels c = some channel ∧ ∀ side, channel.isClosed side = true → ended side ≠ none) :
    ∃ channel, s'.kernel.channels c = some channel ∧ ∀ side, channel.isClosed side = true → ended side ≠ none := by
  obtain ⟨channel, found, flags⟩ := flags
  have record := same.record
  rw [found, map_some, map_eq_some_iff] at record
  obtain ⟨channel', found', fields⟩ := record
  exact ⟨channel', found', (Prod.mk.inj fields).2 ▸ flags⟩

theorem apart_of_apart (apart : s.ends c clientEnd ≠ s.ends c serverEnd) (side : Fin 2) : s.ends c (peer side) ≠ s.ends c side := by
  rcases eq_or_eq_peer clientEnd side with rfl | rfl
  · exact apart.symm
  · exact apart

theorem ChannelLedger.Kept.send (kept : l.Kept c)
    (endpoint : l.state.Endpoint h c side) (found : l.state.pipes (l.state.ends c side) = some pipe)
    (ret : channelSend l.state h data len = .ok s') : ChannelLedger.Kept { l with
      state := s', sent := update l.sent side (l.sent side ++ pipe.accepts data (toUint len)) } c := by
  obtain ⟨same, mid, written, pipes⟩ := channelSend_ok endpoint ret
  have inOrder : ChannelLedger.InOrder { l with
      state := s', sent := update l.sent side (l.sent side ++ pipe.accepts data (toUint len)) } c := by
    intro other
    obtain ⟨items, holds, balance⟩ := kept.inOrder other
    simp only [same.ends]
    rcases eq_or_eq_peer side other with rfl | rfl
    · refine ⟨items ++ pipe.accepts data (toUint len), ?_, ?_⟩
      · exact (holds.write found written).congr (by rw [pipes])
      · rw [update_self, ← balance, append_assoc]
    · -- the pipe of the other end is not written
      refine ⟨items, holds.congr ?_, ?_⟩
      · obtain ⟨_, k, -, rfl, -⟩ := pipeWrite_ok written
        rw [pipes, State.setPipe_pipes, update_of_ne (apart_of_apart kept.apart side)]
        rfl
      · rw [update_of_ne (peer_ne side), balance]
  have apart : s'.ends c clientEnd ≠ s'.ends c serverEnd := same.ends ▸ kept.apart
  exact ⟨inOrder, apart, flags_of_same same kept.flags, kept.ended, kept.drained⟩

theorem ChannelLedger.Kept.recv {read : List Byte} (kept : l.Kept c)
    (endpoint : l.state.Endpoint h c side) (ret : channelRecv l.state h len = .ok (s', .bytes read)) :
    ChannelLedger.Kept { l with state := s', received := update l.received side (l.received side ++ read) } c := by
  obtain ⟨channel, found, ⟨-, -, closed⟩ | ⟨-, _, same, fetched⟩⟩ := channelRecv_ok endpoint ret
  · cases closed
  obtain rfl := Received.bytes.inj same
  obtain ⟨pipe, -, -, rfl⟩ := pipeRead_ok fetched
  have longer (other : Fin 2) : l.received other <+: update l.received side (l.received side ++ read) other := by
    by_cases here : other = side
    · rw [here, update_self]
      exact prefix_append ..
    · rw [update_of_ne here]
  refine ⟨fun other => ?_, kept.apart, kept.flags, fun other bytes ended => (kept.ended other bytes ended).trans (longer _),
    fun other refused => ?_⟩
  · obtain ⟨items, holds, balance⟩ := kept.inOrder other
    rcases eq_or_eq_peer side other with rfl | rfl
    · refine ⟨items, holds.congr ?_, ?_⟩
      · simp only [State.setPipe_pipes]
        rw [update_of_ne (apart_of_apart kept.apart other).symm]
      · dsimp only
        rw [update_of_ne (peer_ne other), balance]
    · obtain ⟨taken, left⟩ := holds.read fetched
      refine ⟨_, left, ?_⟩
      dsimp only
      rw [peer_peer] at balance ⊢
      rw [update_self, taken, append_assoc, take_append_drop, balance]
  · obtain ⟨bytes, ended, before⟩ := kept.drained other refused
    exact ⟨bytes, ended, before.trans (longer other)⟩

theorem ChannelLedger.Kept.refuse (kept : l.Kept c) (endpoint : l.state.Endpoint h c side)
    (ret : channelRecv l.state h len = .ok (s', .closed)) :
    ChannelLedger.Kept { l with state := s', refused := update l.refused side true } c := by
  obtain ⟨channel, found, ⟨closed, rfl, -⟩ | ⟨-, _, same, -⟩⟩ := channelRecv_ok endpoint ret
  · refine ⟨kept.inOrder, kept.apart, kept.flags, kept.ended, fun other refused => ?_⟩
    by_cases here : other = side
    · -- the flag of the peer is set, so it has closed
      obtain ⟨_, found', flags⟩ := kept.flags
      obtain rfl := mem_unique found found'
      obtain ⟨bytes, ended⟩ := ne_none_iff_exists'.mp (flags _ closed)
      have before := kept.ended _ bytes ended
      rw [peer_peer] at before
      exact ⟨bytes, here ▸ ended, here ▸ before⟩
    · dsimp only at refused
      rw [update_of_ne here] at refused
      exact kept.drained other refused
  · cases same

theorem ChannelLedger.Kept.close (kept : l.Kept c) (clean : l.Clean c (.close side))
    (found : l.state.kernel.channels c = some channel) (has : sideOf channel pid = some side)
    (ret : channelClose l.state c pid = .ok s') : ChannelLedger.Kept
      { l with state := s', ended := update l.ended side (some ((l.ended side).getD (l.sent side))) } c := by
  obtain ⟨record, ends, pipes⟩ := channelClose_ok found has ret
  have earlier {other : Fin 2} (here : other ≠ side) :
      update l.ended side (some ((l.ended side).getD (l.sent side))) other = l.ended other :=
    update_of_ne here ..
  have again {bytes : List Byte} (ended : l.ended side = some bytes) :
      update l.ended side (some ((l.ended side).getD (l.sent side))) side = some bytes := by
    rw [update_self, ended, getD_some]
  refine ⟨fun other => ?_, ends ▸ kept.apart, ?_, fun other bytes ended => ?_, fun other refused => ?_⟩
  · obtain ⟨items, holds, balance⟩ := kept.inOrder other
    simp only [ends]
    exact ⟨items, holds.congr (by rw [pipes]), balance⟩
  · rw [map_eq_some_iff] at record
    obtain ⟨channel', found', fields⟩ := record
    obtain ⟨_, found'', flags⟩ := kept.flags
    obtain rfl := mem_unique found found''
    refine ⟨channel', found', fun other closed => ?_⟩
    by_cases here : other = side
    · simp [here]
    · rw [(Prod.mk.inj fields).2, update_of_ne here] at closed
      dsimp only
      rw [earlier here]
      exact flags other closed
  · by_cases here : other = side
    · subst here
      dsimp only at ended
      rcases clean with before | drained
      · obtain ⟨bytes', ended'⟩ := ne_none_iff_exists'.mp before
        rw [again ended'] at ended
        exact kept.ended other bytes (ended'.trans ended)
      · -- nothing is left in the pipe, so all has been received
        cases known : l.ended other with
        | some bytes' =>
          rw [again known] at ended
          exact kept.ended other bytes (known.trans ended)
        | none =>
          obtain ⟨items, ⟨pipe, found, -, held⟩, balance⟩ := kept.inOrder other
          obtain ⟨_, found', -, empty⟩ := drained
          obtain rfl := mem_unique found found'
          rw [← held, empty, append_nil] at balance
          rw [known, update_self, getD_none, some.injEq] at ended
          rw [← ended, ← balance]
    · dsimp only at ended
      rw [earlier here] at ended
      exact kept.ended other bytes ended
  · obtain ⟨bytes, ended, before⟩ := kept.drained other refused
    refine ⟨bytes, ?_, before⟩
    by_cases here : peer other = side
    · rw [here] at ended ⊢
      exact again ended
    · exact (earlier here).trans ended

private theorem ChannelStep.kept {call : ChannelCall} {l' : ChannelLedger} (kept : l.Kept c) (step : ChannelStep c call l l')
    (clean : l.Clean c call) : l'.Kept c := by
  cases step with
  | send endpoint found ret => exact kept.send endpoint found ret
  | recv endpoint ret => exact kept.recv endpoint ret
  | refuse endpoint ret => exact kept.refuse endpoint ret
  | close found has ret => exact kept.close clean found has ret
  | other same pipes =>
    refine ⟨fun side => ?_, same.ends ▸ kept.apart, flags_of_same same kept.flags, kept.ended, kept.drained⟩
    obtain ⟨items, holds, balance⟩ := kept.inOrder side
    simp only [same.ends]
    exact ⟨items, holds.congr (pipes side), balance⟩

end Kept

/-- The channel has been accepted, neither end has closed, and each pipe holds what was sent so far. -/
structure State.Accepted (s : State) (c : Nat) (sent : Fin 2 → List Byte) : Prop where
  opened : ∃ channel, s.kernel.channels c = some channel ∧ channel.pids clientEnd ≠ channel.pids serverEnd ∧
    ∀ side, channel.isClosed side = false
  apart : s.ends c clientEnd ≠ s.ends c serverEnd
  pipes : ∀ side, s.Holds (s.ends c side) (sent side)

/-- In every run in which an end closes only once its pipe is empty, both ends receive what the other
has sent, in order, and -1 only after all of it. -/
theorem channel_delivers (s : State) (c : Nat) (sent : Fin 2 → List Byte) (accepted : s.Accepted c sent) (l : ChannelLedger)
    (run : ReflTransGen (fun l l' => ∃ call, ChannelStep c call l l' ∧ l.Clean c call)
      ⟨s, sent, fun _ => [], fun _ => none, fun _ => false⟩ l) :
    l.InOrder c ∧ l.Drained := by
  have start : ChannelLedger.Kept ⟨s, sent, fun _ => [], fun _ => none, fun _ => false⟩ c := by
    obtain ⟨channel, found, -, opened⟩ := accepted.opened
    refine ⟨fun side => ⟨sent side, accepted.pipes side, rfl⟩, accepted.apart,
      ⟨channel, found, fun side closed => ?_⟩, fun side bytes ended => ?_, fun side refused => ?_⟩
    · rw [opened side] at closed
      cases closed
    · cases ended
    · cases refused
  have kept := invariant_of_run (fun l => l.Kept c) (fun _ _ kept ⟨_, step, clean⟩ => step.kept kept clean) run start
  exact ⟨kept.inOrder, kept.drained⟩

def emptyPipe : Pipe := ⟨fun _ => 0, 0, 0, 0, 1, 0⟩

/-- A client (task 0x20) and a server (task 0x50) with a channel between them. The current task, whether
the client has closed, and the pipe from the client to the server are parameters. -/
def talkers (current : Nat) (closed : Bool) (pipe : Pipe) : State :=
  let handles (i : Nat) : HandleEntry := if i = 2 then ⟨.channel, 0x60⟩ else ⟨.none, 0⟩
  let kernel := (emptyKernel.setProcess 0x10 { plainProcess 1 0x20 with handles := handles }).setProcess 0x40
    { plainProcess 2 0x50 with handles := handles }
  let kernel := (kernel.setTask 0x20 (plainTask 1 0x10)).setTask 0x50 (plainTask 2 0x40)
  let pids := update (fun _ => 2) clientEnd 1
  let kernel := kernel.setChannel 0x60 ⟨pids, fun _ => 0, update (fun _ => false) clientEnd closed⟩
  let pipes := update (fun _ => none) 0x200 (some emptyPipe)
  { kernel := { kernel with currentTask := current }
    pipes := update pipes 0x100 (some pipe)
    ends := fun _ => update (fun _ => 0x200) clientEnd 0x100
    servers := emptyState.servers }

section Talkers

variable {closed : Bool} {pipe : Pipe}

theorem talkers_client : (talkers 0x20 closed pipe).Endpoint 2 0x60 clientEnd :=
  ⟨0x10, _, ⟨.channel, 0x60⟩, _, rfl, rfl, rfl, by decide, rfl, rfl⟩

theorem talkers_server : (talkers 0x50 closed pipe).Endpoint 2 0x60 serverEnd :=
  ⟨0x40, _, ⟨.channel, 0x60⟩, _, rfl, rfl, rfl, by decide, rfl, rfl⟩

theorem talkers_pipe (current : Nat) : (talkers current closed pipe).pipes 0x100 = some pipe := by
  simp [talkers]

theorem talkers_setPipe (current : Nat) (pipe' : Pipe) :
    (talkers current closed pipe).setPipe 0x100 pipe' = talkers current closed pipe' := by
  simp only [talkers, State.setPipe, update_idem]

theorem talkers_send (silent : pipe.listener = 0) (data : Nat → Byte) (len : Int) :
    channelSend (talkers 0x20 closed pipe) 2 data len = .ok (talkers 0x20 closed (pipe.store data (toUint len) 0)) := by
  have written : pipeWrite (talkers 0x20 closed pipe) 0x100 data (toUint len) = .ok _ :=
    pipeWrite_eq (talkers_pipe 0x20) silent data (toUint len)
  rw [talkers_setPipe] at written
  rw [channelSend_eq talkers_client, sendFrom]
  exact congrArg (· >>= fun s => wakeListener s 0x60 serverEnd) written

theorem talkers_recv (len : Int) : channelRecv (talkers 0x50 false pipe) 2 len =
    .ok (talkers 0x50 false (pipe.fetch (toUint len)).1, .bytes (pipe.fetch (toUint len)).2) := by
  have fetched : pipeRead (talkers 0x50 false pipe) 0x100 (toUint len) = .ok _ := pipeRead_eq (talkers_pipe 0x50) (toUint len)
  rw [talkers_setPipe] at fetched
  rw [channelRecv_eq talkers_server, recvFrom]
  exact congrArg (· >>= fun r => pure (r.1, Received.bytes r.2)) fetched

theorem talkers_refuse (len : Int) : channelRecv (talkers 0x50 true pipe) 2 len = .ok (talkers 0x50 true pipe, .closed) := by
  rw [channelRecv_eq talkers_server]
  rfl

theorem talkers_close : channelClose (talkers 0x20 false pipe) 0x60 1 = .ok (talkers 0x20 true pipe) := by
  simp [channelClose, talkers, State.channel, State.setClosed, wakeListener, Kernel.setChannel, State.withKernel]

theorem emptyPipe_sound : emptyPipe.Sound := ⟨Nat.zero_le _, by decide, rfl⟩

theorem talkers_accepted : (talkers 0x20 false emptyPipe).Accepted 0x60 fun _ => [] := by
  refine ⟨⟨_, rfl, by decide, fun side => ?_⟩, by decide, fun side => ?_⟩
  · rcases eq_or_eq_peer clientEnd side with rfl | rfl <;> rfl
  · rcases eq_or_eq_peer clientEnd side with rfl | rfl <;> exact ⟨emptyPipe, rfl, emptyPipe_sound, rfl⟩

end Talkers

def onePipe : Pipe := emptyPipe.store (fun _ => 7) (toUint 1) 0

theorem client_sends : ChannelStep 0x60 (.send clientEnd)
    ⟨talkers 0x20 false emptyPipe, fun _ => [], fun _ => [], fun _ => none, fun _ => false⟩
    ⟨talkers 0x20 false onePipe, update (fun _ => []) clientEnd [7], fun _ => [], fun _ => none, fun _ => false⟩ := by
  have bytes : emptyPipe.accepts (fun _ => 7) (toUint 1) = [7] := by decide
  have found : (talkers 0x20 false emptyPipe).pipes ((talkers 0x20 false emptyPipe).ends 0x60 clientEnd) = some emptyPipe := rfl
  have step := ChannelStep.send (l := ⟨talkers 0x20 false emptyPipe, fun _ => [], fun _ => [], fun _ => none, fun _ => false⟩)
    talkers_client found (talkers_send rfl (fun _ => 7) 1)
  rwa [bytes] at step

variable {sent received : Fin 2 → List Byte}

theorem switch_talkers {closed : Bool} {refused : Fin 2 → Bool} (current other : Nat) :
    ChannelStep 0x60 .other ⟨talkers current closed pipe, sent, received, ended, refused⟩
      ⟨talkers other closed pipe, sent, received, ended, refused⟩ :=
  .other ⟨rfl, rfl⟩ fun _ => rfl

theorem client_closes :
    ChannelStep 0x60 (.close clientEnd) ⟨talkers 0x20 false pipe, sent, received, fun _ => none, fun _ => false⟩
      ⟨talkers 0x20 true pipe, sent, received, update (fun _ => none) clientEnd (some (sent clientEnd)), fun _ => false⟩ :=
  .close rfl rfl talkers_close

theorem server_refused :
    ChannelStep 0x60 (.recv serverEnd) ⟨talkers 0x50 true pipe, sent, received, ended, fun _ => false⟩
      ⟨talkers 0x50 true pipe, sent, received, ended, update (fun _ => false) serverEnd true⟩ :=
  .refuse talkers_server (talkers_refuse 1)

/-- The client sends a byte and closes, and the server is told -1 while the byte is in the pipe. -/
theorem unread_byte_cut_off : (talkers 0x20 false emptyPipe).Accepted 0x60 (fun _ => []) ∧
    ∃ l, ReflTransGen (fun l l' => ∃ call, ChannelStep 0x60 call l l')
      ⟨talkers 0x20 false emptyPipe, fun _ => [], fun _ => [], fun _ => none, fun _ => false⟩ l ∧ ¬l.Drained := by
  refine ⟨talkers_accepted, _, .tail (.tail (.tail (.single ⟨_, client_sends⟩) ⟨_, client_closes⟩)
    ⟨_, switch_talkers 0x20 0x50⟩) ⟨_, server_refused⟩, fun drained => ?_⟩
  obtain ⟨bytes, ended, before⟩ := drained serverEnd rfl
  have sent : bytes = [7] := (some.inj ended).symm
  rw [sent] at before
  exact absurd (List.prefix_nil.mp before) (by decide)

/-- The server reads the byte before the client closes. -/
theorem read_byte_delivered : ∃ l, ReflTransGen (fun l l' => ∃ call, ChannelStep 0x60 call l l' ∧ l.Clean 0x60 call)
      ⟨talkers 0x20 false emptyPipe, fun _ => [], fun _ => [], fun _ => none, fun _ => false⟩ l ∧
    l.refused serverEnd = true ∧ l.received serverEnd = [7] ∧ l.InOrder 0x60 ∧ l.Drained := by
  have received : ChannelStep 0x60 (.recv serverEnd)
      ⟨talkers 0x50 false onePipe, update (fun _ => []) clientEnd [7], fun _ => [], fun _ => none, fun _ => false⟩
      ⟨talkers 0x50 false (onePipe.fetch (toUint 1)).1, update (fun _ => []) clientEnd [7],
        update (fun _ => []) serverEnd [7], fun _ => none, fun _ => false⟩ := by
    have bytes : (onePipe.fetch (toUint 1)).2 = [7] := by decide
    have step := ChannelStep.recv (l := ⟨talkers 0x50 false onePipe, update (fun _ => []) clientEnd [7], fun _ => [],
      fun _ => none, fun _ => false⟩) talkers_server (talkers_recv 1)
    rwa [bytes] at step
  have empty : (talkers 0x20 false (onePipe.fetch (toUint 1)).1).Holds 0x100 [] := by
    obtain ⟨sound, -⟩ := emptyPipe_sound.write (fun _ => 7) (toUint 1)
    obtain ⟨kept, -, items⟩ := sound.read (toUint 1)
    exact ⟨_, rfl, kept, items⟩
  have steps : ReflTransGen (fun l l' => ∃ call, ChannelStep 0x60 call l l' ∧ l.Clean 0x60 call) _ _ :=
    .tail (.tail (.tail (.tail (.tail (.tail (.single ⟨_, client_sends, trivial⟩) ⟨_, switch_talkers 0x20 0x50, trivial⟩)
      ⟨_, received, trivial⟩) ⟨_, switch_talkers 0x50 0x20, trivial⟩) ⟨_, client_closes, .inr empty⟩)
      ⟨_, switch_talkers 0x20 0x50, trivial⟩) ⟨_, server_refused, trivial⟩
  exact ⟨_, steps, rfl, rfl, channel_delivers _ 0x60 _ talkers_accepted _ steps⟩

end Xos.Ipc
