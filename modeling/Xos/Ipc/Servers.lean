import Xos.Ipc.Channel

/-!
# The pending connections of a server (`channel.c`)

A full queue drops a channel although the client gets its handle, and a full table of handles is noticed when the queue
has been changed already.
-/
namespace Xos.Ipc

open Lib Memory Scheduler Syscall Relation Outcome Function Except List Option

variable {s s' : State} {c i : Nat}

def Server.ring (server : Server) : (Nat → Nat) × Nat × Nat × Nat :=
  (server.incommingConnections, server.head, server.tail, server.count)

def Server.queue (server : Server) : List Nat := circular server.incommingConnections maxPending server.head server.count

structure Server.Sound (server : Server) : Prop where
  count : server.count ≤ maxPending
  head : server.head < maxPending
  tail : server.tail = (server.head + server.count) % maxPending

def State.pending (s : State) (i : Nat) : List Nat := (s.servers i).queue

section Queue

variable {server server' : Server}

theorem Server.queue_congr (same : server'.ring = server.ring) : server'.queue = server.queue := by
  simp only [Server.ring, Prod.mk.injEq] at same
  simp only [Server.queue, same]

theorem Server.Sound.congr (sound : server.Sound) (same : server'.ring = server.ring) : server'.Sound := by
  simp only [Server.ring, Prod.mk.injEq] at same
  obtain ⟨-, head, tail, count⟩ := same
  refine ⟨count ▸ sound.count, head ▸ sound.head, ?_⟩
  rw [tail, head, count, sound.tail]

theorem enqueueIncomming_queue (sound : (s.servers i).Sound) (room : (s.servers i).count < maxPending) (c : Nat) :
    ((enqueueIncomming s i c).servers i).Sound ∧ (enqueueIncomming s i c).pending i = s.pending i ++ [c] := by
  have written : (enqueueIncomming s i c).servers i =
      { s.servers i with
        incommingConnections := update (s.servers i).incommingConnections (s.servers i).tail c
        tail := ((s.servers i).tail + 1) % maxPending
        count := (s.servers i).count + 1 } := by
    rw [enqueueIncomming, if_neg room.ne, State.setServer_servers, update_self]
  obtain ⟨-, head, tail⟩ := sound
  rw [State.pending, written]
  refine ⟨⟨room, head, ?_⟩, ?_⟩
  · simp only [tail, Nat.mod_add_mod, Nat.add_assoc]
  · simp only [Server.queue, State.pending, tail, circular_push room]

theorem dequeueIncomming_empty (empty : (s.servers i).count = 0) : dequeueIncomming s i = (s, 0) := by
  rw [dequeueIncomming, if_pos empty]

theorem dequeueIncomming_queue (sound : (s.servers i).Sound) (some : (s.servers i).count ≠ 0) :
    ∃ after c, dequeueIncomming s i = (after, c) ∧ (after.servers i).Sound ∧ s.pending i = c :: after.pending i ∧
      after.kernel = s.kernel := by
  obtain ⟨rest, counted⟩ := Nat.exists_eq_add_one_of_ne_zero some
  obtain ⟨count, head, tail⟩ := sound
  refine ⟨s.setServer i { s.servers i with head := ((s.servers i).head + 1) % maxPending, count := (s.servers i).count - 1 },
    (s.servers i).incommingConnections (s.servers i).head, by rw [dequeueIncomming, if_neg some], ?_, ?_, rfl⟩
  · rw [State.setServer_servers, update_self]
    refine ⟨by simp only; omega, Nat.mod_lt _ (by decide), ?_⟩
    simp only [tail, counted, Nat.mod_add_mod]
    congr 1
    omega
  · simp only [State.pending, Server.queue, State.setServer_servers, update_self, counted, circular_pop,
      Nat.mod_eq_of_lt head, Nat.add_sub_cancel]

end Queue

def State.handlePtr (s : State) (h : Int) : Option Nat :=
  match s.current with
  | .ok (_, process) => (handleGet process h).map HandleEntry.ptr
  | .error _ => none

def State.FreeHandle (s : State) : Prop :=
  ∃ p process j, s.current = .ok (p, process) ∧ j < maxHandles ∧ (process.handles j).type = .none

variable {process : Process} {value : Int}

theorem State.current_eq_ok {p : Nat} : s.current = .ok (p, process) ↔
    ∃ task, s.kernel.tasks s.kernel.currentTask = some task ∧ task.owner = p ∧ s.kernel.processes p = some process := by
  simp only [State.current, processCurrent, bind_eq_ok, pure_eq_ok, Kernel.task_eq_ok, Kernel.process_eq_ok,
    ok.injEq, Prod.mk.injEq]
  constructor
  · rintro ⟨_, ⟨task, found, rfl⟩, _, record, rfl, rfl⟩
    exact ⟨task, found, rfl, record⟩
  · rintro ⟨task, found, rfl, record⟩
    exact ⟨_, ⟨task, found, rfl⟩, process, record, rfl, rfl⟩

variable {h : Int}

theorem handleGet_negative (negative : h < 0) : handleGet process h = none := by
  rw [handleGet, if_pos (.inl negative)]

theorem handlePtr_negative (negative : h < 0) : s.handlePtr h = none := by
  rw [State.handlePtr]
  split
  · rw [handleGet_negative negative, map_none]
  · rfl

theorem handleAlloc_ok {k k' : Kernel} {p ptr : Nat} {type : HandleType}
    (record : k.processes p = some process) (ret : handleAlloc k p type ptr = .ok (k', value)) :
    (∃ j, j < maxHandles ∧ (process.handles j).type = .none ∧ value = j ∧
      k' = k.setProcess p { process with handles := update process.handles j ⟨type, ptr⟩ }) ∨
    value = -1 ∧ k' = k ∧ ∀ j < maxHandles, (process.handles j).type ≠ .none := by
  rw [handleAlloc, Kernel.process_eq_ok.mpr record, ok_bind] at ret
  split at ret
  next j first =>
    obtain ⟨rfl, rfl⟩ := ok_inj ret
    have free := find?_some first
    have inside := mem_range.mp (mem_of_find?_eq_some first)
    exact .inl ⟨j, inside, by simpa using free, rfl, rfl⟩
  next none =>
    obtain ⟨rfl, rfl⟩ := ok_inj ret
    refine .inr ⟨rfl, rfl, fun j inside => ?_⟩
    simpa using find?_eq_none.mp none j (mem_range.mpr inside)

/-- With a free handle the call ends with one that leads to the channel. -/
theorem handlePtr_of_alloc {k : Kernel} {p : Nat} (current : s.current = .ok (p, process))
    (frame : Frame s.kernel k) (task : k.currentTask = s.kernel.currentTask)
    (ret : handleAlloc k p .channel c = .ok (s'.kernel, value)) :
    s'.kernel.channels = k.channels ∧ (s.FreeHandle → 0 ≤ value ∧ s'.handlePtr value = some c) := by
  obtain ⟨record, found, owner, processes⟩ := State.current_eq_ok.mp current
  rcases handleAlloc_ok (frame.processes ▸ processes) ret with ⟨j, inside, -, rfl, after⟩ | ⟨-, after, full⟩
  · refine ⟨by rw [after]; rfl, fun _ => ⟨Int.natCast_nonneg j, ?_⟩⟩
    have same := frame.tasks s.kernel.currentTask
    rw [found, map_some, map_eq_some_iff] at same
    obtain ⟨record', found', fixed⟩ := same
    have now : s'.current =
        .ok (p, { process with handles := update process.handles j ⟨.channel, c⟩ }) := by
      refine State.current_eq_ok.mpr ⟨record', ?_, ?_, ?_⟩
      · rw [after, Kernel.setProcess_tasks, Kernel.setProcess_currentTask, task, found']
      · exact (congrArg Task.owner fixed).trans owner
      · rw [after, Kernel.setProcess_processes, update_self]
    simp [State.handlePtr, now, handleGet, inside]
  · refine ⟨by rw [after], ?_⟩
    rintro ⟨_, _, j, current', inside, free⟩
    obtain ⟨-, rfl⟩ := Prod.mk.inj (ok.inj (current.symm.trans current'))
    exact absurd free (full j inside)

theorem Frame.setChannel (k : Kernel) (c : Nat) (channel : Channel) : Frame k (k.setChannel c channel) :=
  ⟨fun _ => rfl, rfl, rfl, rfl, rfl, rfl⟩

@[simp] theorem enqueueIncomming_kernel (s : State) (i c : Nat) : (enqueueIncomming s i c).kernel = s.kernel := by
  rw [enqueueIncomming]
  split <;> rfl

theorem enqueueIncomming_servers (same : s'.servers = s.servers) (i c : Nat) :
    (enqueueIncomming s' i c).servers = (enqueueIncomming s i c).servers := by
  simp only [enqueueIncomming, same]
  split
  · exact same
  · simp only [State.setServer, same]

theorem wakeServer_ok (ret : wakeServer s i = .ok s') :
    ∃ tasks, s'.kernel = { s.kernel with tasks := tasks } ∧ Frame s.kernel s'.kernel ∧
      (s'.servers i).ring = (s.servers i).ring := by
  rw [wakeServer] at ret
  split at ret
  · obtain ⟨woken, wake, ret⟩ := of_bind ret
    obtain ⟨k, ready, rfl⟩ := State.taskSetReady_eq_ok.mp wake
    obtain ⟨tasks, same⟩ := taskSetReady_tasks ready
    obtain rfl := ok.inj ret
    refine ⟨tasks, same, (taskSetReady_sched ready).2, ?_⟩
    simp [Server.ring]
  · obtain rfl := ok.inj ret
    exact ⟨s.kernel.tasks, rfl, .refl _, rfl⟩

theorem ipcConnect_ok {identifier : List Byte} {q₀ q₁ : Nat} {buf₀ buf₁ : Bytes}
    (found : findServer s identifier = some i) (ret : ipcConnect s identifier c q₀ q₁ buf₀ buf₁ = .ok (s', value)) :
    ∃ p process k channel, s.current = .ok (p, process) ∧ Frame s.kernel k ∧ k.currentTask = s.kernel.currentTask ∧
      k.channels = update s.kernel.channels c (some channel) ∧
      handleAlloc k p .channel c = .ok (s'.kernel, value) ∧
      (s'.servers i).ring = ((enqueueIncomming s i c).servers i).ring := by
  simp only [ipcConnect, found] at ret
  obtain ⟨⟨p, process⟩, current, ret⟩ := of_bind ret
  obtain ⟨woken, ⟨k', h⟩, wake, allocated, ret⟩ := of_bind₂ ret
  obtain ⟨rfl, rfl⟩ := ok_inj ret
  obtain ⟨tasks, kernel, frame, ring⟩ := wakeServer_ok wake
  rw [enqueueIncomming_kernel] at kernel frame
  refine ⟨p, process, woken.kernel, ⟨update (fun _ => 0) clientEnd process.pid, fun _ => 0, fun _ => false⟩, current,
    (Frame.setChannel ..).trans frame, ?_, ?_, allocated, ?_⟩
  · rw [kernel]
    rfl
  · rw [kernel]
    rfl
  · exact ring.trans (congrArg (fun servers : Nat → Server => (servers i).ring) (enqueueIncomming_servers (by rfl) i c))

theorem acceptChannel_ok (ret : acceptChannel s c = .ok (s', value)) :
    ∃ p process k channel, s.current = .ok (p, process) ∧ Frame s.kernel k ∧ k.currentTask = s.kernel.currentTask ∧
      k.channels = update s.kernel.channels c (some channel) ∧
      handleAlloc k p .channel c = .ok (s'.kernel, value) ∧ s'.servers = s.servers := by
  obtain ⟨⟨p, process⟩, current, ret⟩ := of_bind ret
  obtain ⟨k, updated, ret⟩ := of_bind ret
  obtain ⟨channel, -, rfl⟩ := Kernel.updateChannel_eq_ok.mp updated
  obtain ⟨⟨k', h⟩, allocated, ret⟩ := of_bind ret
  obtain ⟨rfl, rfl⟩ := ok_inj ret
  exact ⟨p, process, _, _, current, Frame.setChannel .., rfl, rfl, allocated, rfl⟩

/-- What an accept that returns has done: there was no connection and nothing has changed, or the first
one has been taken. -/
def Accepts (s : State) (i : Nat) (s' : State) (value : Int) : Prop :=
  (s.servers i).count = 0 ∧ s' = s ∧ value = -1 ∨
    (s.servers i).count ≠ 0 ∧ acceptChannel (dequeueIncomming s i).1 (dequeueIncomming s i).2 = .ok (s', value)

theorem ipcAcceptNb_ok (nonnull : (s.servers i).count ≠ 0 → (dequeueIncomming s i).2 ≠ 0)
    (server : getServer h = some i) (ret : ipcAcceptNb s h = .ok (s', value)) : Accepts s i s' value := by
  simp only [ipcAcceptNb, server] at ret
  by_cases empty : (s.servers i).count = 0
  · rw [dequeueIncomming_empty empty, if_pos rfl] at ret
    obtain ⟨rfl, rfl⟩ := ok_inj ret
    exact .inl ⟨empty, rfl, rfl⟩
  · rw [if_neg (nonnull empty)] at ret
    exact .inr ⟨empty, ret⟩

theorem ipcAccept_ok {progress : Progress Int} (nonnull : (s.servers i).count ≠ 0 → (dequeueIncomming s i).2 ≠ 0)
    (server : getServer h = some i) (ret : ipcAccept s h = .ok (s', progress)) :
    (∃ value, progress = .returned value ∧ Accepts s i s' value) ∨
      progress = .blocked ∧ (s'.servers i).ring = (s.servers i).ring ∧ s'.kernel.channels = s.kernel.channels := by
  simp only [ipcAccept, server] at ret
  by_cases empty : (s.servers i).count = 0
  · rw [dequeueIncomming_empty empty, if_pos rfl] at ret
    split at ret
    · obtain ⟨rfl, rfl⟩ := ok_inj ret
      exact .inl ⟨-1, rfl, .inl ⟨empty, rfl, rfl⟩⟩
    · obtain ⟨after, blocked, ret⟩ := of_bind ret
      obtain ⟨rfl, rfl⟩ := ok_inj ret
      obtain ⟨k, mid, blocks, scheduled, rfl⟩ := State.block_ok blocked
      refine .inr ⟨rfl, ?_, (schedule_channels scheduled).trans (taskSetBlocked_channels blocks)⟩
      simp [Server.ring]
  · rw [if_neg (nonnull empty)] at ret
    obtain ⟨⟨after, value⟩, accepted, ret⟩ := of_bind ret
    obtain ⟨rfl, rfl⟩ := ok_inj ret
    exact .inl ⟨value, rfl, .inr ⟨empty, accepted⟩⟩

/-- The state, the channels of the handles that connects and accepts have returned, and whether a call
that returned -1 has changed the queue. -/
structure ServerLedger where
  state : State
  connected : List Nat
  accepted : List Nat
  moved : Bool

/-- Whether a call on the server that returned -1 has changed its queue. -/
def ServerLedger.movedBy (l : ServerLedger) (i : Nat) (s' : State) (value : Int) : Bool :=
  l.moved || decide (value < 0 ∧ s'.pending i ≠ l.state.pending i)

inductive ServerCall where
  | connect
  | accept
  | other
  deriving DecidableEq, Repr

/-- A call on the server with the number `i`, or anything else that leaves its queue alone and frees no
channel. A connect gets a new block of the heap. An accept that waits goes on as `ipc_accept_nb`. -/
inductive ServerStep (i : Nat) : ServerCall → ServerLedger → ServerLedger → Prop
  | connect {l : ServerLedger} {s' : State} {identifier : List Byte} {c q₀ q₁ : Nat} {buf₀ buf₁ : Bytes} {value : Int}
      (found : findServer l.state identifier = some i) (null : c ≠ 0) (fresh : l.state.kernel.channels c = none)
      (returned : ipcConnect l.state identifier c q₀ q₁ buf₀ buf₁ = .ok (s', value)) :
      ServerStep i .connect l
        ⟨s', l.connected ++ (s'.handlePtr value).toList, l.accepted, l.movedBy i s' value⟩
  | accept {l : ServerLedger} {s' : State} {h value : Int} (server : getServer h = some i)
      (returned : ipcAccept l.state h = .ok (s', .returned value)) :
      ServerStep i .accept l ⟨s', l.connected, l.accepted ++ (s'.handlePtr value).toList, l.movedBy i s' value⟩
  | wait {l : ServerLedger} {s' : State} {h : Int} (server : getServer h = some i)
      (returned : ipcAccept l.state h = .ok (s', .blocked)) : ServerStep i .accept l { l with state := s' }
  | acceptNb {l : ServerLedger} {s' : State} {h value : Int} (server : getServer h = some i)
      (returned : ipcAcceptNb l.state h = .ok (s', value)) :
      ServerStep i .accept l ⟨s', l.connected, l.accepted ++ (s'.handlePtr value).toList, l.movedBy i s' value⟩
  | other {l : ServerLedger} {s' : State} (queue : (s'.servers i).ring = (l.state.servers i).ring)
      (channels : ∀ c, l.state.kernel.channels c ≠ none → s'.kernel.channels c ≠ none) :
      ServerStep i .other l { l with state := s' }

/-- There is room for what the call does: a connect needs a place in the queue and a handle, and an
accept that finds a connection needs a handle. -/
def ServerLedger.Roomy (l : ServerLedger) (i : Nat) : ServerCall → Prop
  | .connect => (l.state.servers i).count < maxPending ∧ l.state.FreeHandle
  | .accept => (l.state.servers i).count = 0 ∨ l.state.FreeHandle
  | .other => True

/-- The channels of the connects are those of the accepts and, behind them, those in the queue; none of
them is there twice, and no call that returned -1 has changed the queue. -/
structure ServerLedger.Lossless (l : ServerLedger) (i : Nat) : Prop where
  order : l.connected = l.accepted ++ l.state.pending i
  once : l.connected.Nodup
  still : l.moved = false

structure ServerLedger.Served (l : ServerLedger) (i : Nat) : Prop extends l.Lossless i where
  sound : (l.state.servers i).Sound
  live : ∀ c ∈ l.connected, c ≠ 0 ∧ l.state.kernel.channels c ≠ none

section Served

variable {l l' : ServerLedger}

theorem ServerLedger.Served.nonnull (served : l.Served i) (some : (l.state.servers i).count ≠ 0) :
    (dequeueIncomming l.state i).2 ≠ 0 := by
  obtain ⟨after, c, taken, -, front, -⟩ := dequeueIncomming_queue served.sound some
  rw [taken]
  have inside : c ∈ l.connected := by simp [served.order, front]
  exact (served.live c inside).1

private theorem ServerLedger.Served.accept (served : l.Served i) (roomy : l.Roomy i .accept)
    (accepts : Accepts l.state i s' value) :
    ServerLedger.Served ⟨s', l.connected, l.accepted ++ (s'.handlePtr value).toList, l.movedBy i s' value⟩ i := by
  obtain ⟨⟨order, once, still⟩, sound, live⟩ := served
  rcases accepts with ⟨-, rfl, rfl⟩ | ⟨some, accepted⟩
  · rw [handlePtr_negative (by decide), toList_none, append_nil]
    refine ⟨⟨order, once, ?_⟩, sound, live⟩
    simp [ServerLedger.movedBy, still]
  · obtain ⟨after, c, taken, sound', front, kernel⟩ := dequeueIncomming_queue sound some
    rw [taken] at accepted
    obtain ⟨p, process, k, channel, current, frame, task, channels, allocated, servers⟩ := acceptChannel_ok accepted
    obtain ⟨after_channels, handle⟩ := handlePtr_of_alloc current frame task allocated
    have free : after.FreeHandle := by
      rcases roomy with none | free
      · exact absurd none some
      · simpa only [State.FreeHandle, State.current, kernel] using free
    obtain ⟨pos, leads⟩ := handle free
    have queue : s'.pending i = after.pending i := by rw [State.pending, servers, State.pending]
    refine ⟨⟨?_, once, ?_⟩, servers ▸ sound', fun c' inside => ⟨(live c' inside).1, ?_⟩⟩
    · simp only [leads, toList_some, order, front, queue, append_assoc, singleton_append]
    · simp [ServerLedger.movedBy, still, pos]
    · rw [after_channels, channels, kernel]
      by_cases here : c' = c
      · simp [here]
      · rw [update_of_ne here]
        exact (live c' inside).2

theorem ServerStep.served {call : ServerCall} (served : l.Served i) (step : ServerStep i call l l')
    (roomy : l.Roomy i call) : l'.Served i := by
  cases step with
  | @connect _ s' identifier c q₀ q₁ buf₀ buf₁ value found null fresh ret =>
    obtain ⟨⟨order, once, still⟩, sound, live⟩ := served
    obtain ⟨p, process, k, channel, current, frame, task, channels, allocated, ring⟩ := ipcConnect_ok found ret
    obtain ⟨channels', handle⟩ := handlePtr_of_alloc current frame task allocated
    obtain ⟨pos, leads⟩ := handle roomy.2
    obtain ⟨sound', queue⟩ := enqueueIncomming_queue sound roomy.1 c
    have unheard : c ∉ l.connected := fun inside => (live c inside).2 fresh
    refine ⟨⟨?_, ?_, ?_⟩, sound'.congr ring, fun c' inside => ?_⟩
    · have pending : s'.pending i = l.state.pending i ++ [c] := (Server.queue_congr ring).trans queue
      simp only [leads, toList_some, order, pending, append_assoc]
    · simp only [leads, toList_some]
      exact once.append (nodup_singleton c) (disjoint_singleton.mpr unheard)
    · simp [ServerLedger.movedBy, still, pos]
    · rw [channels', channels]
      rw [leads, toList_some, mem_append, mem_singleton] at inside
      by_cases here : c' = c
      · exact ⟨here ▸ null, by simp [here]⟩
      · rw [update_of_ne here]
        exact live c' (inside.resolve_right here)
  | accept server ret =>
    rcases ipcAccept_ok served.nonnull server ret with ⟨value, same, accepts⟩ | ⟨same, -⟩
    · obtain rfl := Progress.returned.inj same
      exact served.accept roomy accepts
    · cases same
  | wait server ret =>
    rcases ipcAccept_ok served.nonnull server ret with ⟨value, same, -⟩ | ⟨-, ring, channels⟩
    · cases same
    · obtain ⟨⟨order, once, still⟩, sound, live⟩ := served
      refine ⟨⟨order.trans ?_, once, still⟩, sound.congr ring, channels ▸ live⟩
      rw [State.pending, ← Server.queue_congr ring, State.pending]
  | acceptNb server ret => exact served.accept roomy (ipcAcceptNb_ok served.nonnull server ret)
  | other ring channels =>
    obtain ⟨⟨order, once, still⟩, sound, live⟩ := served
    refine ⟨⟨order.trans ?_, once, still⟩, sound.congr ring, fun c inside => ⟨(live c inside).1, channels c (live c inside).2⟩⟩
    rw [State.pending, ← Server.queue_congr ring, State.pending]

end Served

/-- In every run in which there is always room for what a call does, connections are accepted in order,
each one once, none is lost, and calls that fail leave the queue as it was. -/
theorem connections_served (s : State) (i : Nat) (sound : (s.servers i).Sound) (empty : s.pending i = []) (l : ServerLedger)
    (run : ReflTransGen (fun l l' => ∃ call, ServerStep i call l l' ∧ l.Roomy i call) ⟨s, [], [], false⟩ l) : l.Lossless i := by
  have start : ServerLedger.Served ⟨s, [], [], false⟩ i := by
    refine ⟨⟨?_, nodup_nil, rfl⟩, sound, fun c inside => absurd inside (not_mem_nil)⟩
    simp [empty]
  have served := invariant_of_run (fun l => l.Served i) (fun _ _ served ⟨_, step, roomy⟩ => step.served served roomy) run start
  exact served.toLossless

/-- A server with the name "a" (task 0x50), and a client (task 0x20) with a table of handles. -/
def lobby (current : Nat) (handles : Nat → HandleEntry) : State :=
  let kernel := (emptyKernel.setProcess 0x10 { plainProcess 1 0x20 with handles := handles }).setProcess 0x40 (plainProcess 2 0x50)
  let kernel := (kernel.setTask 0x20 (plainTask 1 0x10)).setTask 0x50 (plainTask 2 0x40)
  { emptyState with
    kernel := { kernel with currentTask := current }
    servers := update emptyState.servers 0 ⟨hash64 [0x61], 0, fun _ => 0, 0, 0, 0⟩ }

theorem lobby_sound (current : Nat) (handles : Nat → HandleEntry) : ((lobby current handles).servers 0).Sound :=
  ⟨Nat.zero_le _, Nat.zero_lt_succ _, rfl⟩

theorem full_table_connect : (ipcConnect (lobby 0x20 fun _ => ⟨.pipeRead, 0x300⟩) [0x61] 0x60 0x100 0x200 (fun _ => 0)
    (fun _ => 0) >>= fun connected => pure (connected.2, connected.1.pending 0)) = .ok (-1, [0x60]) := by
  decide +kernel

/-- A client without a free handle is told -1, and its channel is in the queue. -/
theorem failed_connect_queued : ((lobby 0x20 fun _ => ⟨.pipeRead, 0x300⟩).servers 0).Sound ∧
    ∃ l, ReflTransGen (fun l l' => ∃ call, ServerStep 0 call l l') ⟨lobby 0x20 fun _ => ⟨.pipeRead, 0x300⟩, [], [], false⟩ l ∧
      ¬l.Lossless 0 := by
  obtain ⟨⟨s₁, value⟩, connected, seen⟩ := of_bind full_table_connect
  obtain ⟨failed, queue⟩ := ok_inj seen
  have found : findServer (lobby 0x20 fun _ => ⟨.pipeRead, 0x300⟩) [0x61] = some 0 := by decide +kernel
  refine ⟨lobby_sound .., _, .single ⟨_, .connect (c := 0x60) found (by decide) rfl connected⟩, fun lossless => ?_⟩
  have order := lossless.order
  dsimp only at failed queue order
  rw [queue, failed, handlePtr_negative (by decide)] at order
  cases order

theorem connect_and_accept : (ipcConnect (lobby 0x20 fun _ => ⟨.none, 0⟩) [0x61] 0x60 0x100 0x200 (fun _ => 0)
    (fun _ => 0) >>= fun connected =>
    ipcAcceptNb (connected.1.withKernel { connected.1.kernel with currentTask := 0x50 }) 0 >>= fun accepted =>
    pure (connected.1.handlePtr connected.2, accepted.1.handlePtr accepted.2,
      (connected.1.kernel.tasks 0x50).map Task.owner,
      (connected.1.kernel.processes 0x40).map fun process => (process.handles 0).type)) =
    .ok (some 0x60, some 0x60, some 0x40, some .none) := by
  decide +kernel

/-- A client connects and the server accepts. -/
theorem connection_accepted : ∃ l, ReflTransGen (fun l l' => ∃ call, ServerStep 0 call l l' ∧ l.Roomy 0 call)
      ⟨lobby 0x20 fun _ => ⟨.none, 0⟩, [], [], false⟩ l ∧ l.connected = [0x60] ∧ l.accepted = [0x60] ∧ l.Lossless 0 := by
  obtain ⟨⟨s₁, h₁⟩, connected, rest⟩ := of_bind connect_and_accept
  obtain ⟨⟨s₂, h₂⟩, accepted, seen⟩ := of_bind rest
  simp only [ok_pair, Prod.mk.injEq, map_eq_some_iff] at seen
  obtain ⟨client, server, ⟨task, found', owner⟩, process, record, type⟩ := seen
  have found : findServer (lobby 0x20 fun _ => ⟨.none, 0⟩) [0x61] = some 0 := by decide +kernel
  have free : (s₁.withKernel { s₁.kernel with currentTask := 0x50 }).FreeHandle :=
    ⟨0x40, process, 0, State.current_eq_ok.mpr ⟨task, found', owner, record⟩, by decide, type⟩
  have roomy : ServerLedger.Roomy ⟨lobby 0x20 fun _ => ⟨.none, 0⟩, [], [], false⟩ 0 .connect :=
    ⟨by decide, 0x10, _, 0, rfl, by decide, rfl⟩
  have connects := ReflTransGen.single (r := fun l l' => ∃ call, ServerStep 0 call l l' ∧ l.Roomy 0 call)
    ⟨_, .connect (c := 0x60) found (by decide) rfl connected, roomy⟩
  have switches : ReflTransGen (fun l l' => ∃ call, ServerStep 0 call l l' ∧ l.Roomy 0 call) _
      ⟨s₁.withKernel { s₁.kernel with currentTask := 0x50 }, _, _, _⟩ :=
    connects.tail ⟨_, .other rfl fun _ => id, trivial⟩
  have steps := switches.tail ⟨_, .acceptNb rfl accepted, .inr free⟩
  refine ⟨_, steps, ?_, ?_, connections_served _ 0 (lobby_sound ..) rfl _ steps⟩
  · simp [client]
  · simp [server]

end Xos.Ipc
