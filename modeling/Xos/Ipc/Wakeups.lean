import Xos.Ipc.Channel

/-!
# No lost wakeups

With interrupts off each system call is one step, so nothing can come between the look at a pipe and the registration.
The one way to block on bytes that are there is to ask for none.
-/
namespace Xos.Ipc

open Lib Memory Scheduler Syscall Word Relation Outcome Function Except Option

variable {s s' : State} {c q : Nat} {side : Fin 2} {channel : Channel} {pipe pipe' : Pipe}

/-- A blocked task is a listener although there is something to read for it, or its peer has closed. -/
def State.Lost (s : State) : Prop :=
  ∃ t task, t ≠ 0 ∧ s.kernel.tasks t = some task ∧ task.state = .blocked ∧
    ((∃ c channel side, s.kernel.channels c = some channel ∧ channel.listeners side = t ∧
        (channel.isClosed (peer side) = true ∨ ∃ pipe, s.pipes (s.ends c (peer side)) = some pipe ∧ pipe.count ≠ 0)) ∨
      ∃ q pipe, s.pipes q = some pipe ∧ pipe.listener = t ∧ pipe.count ≠ 0)

inductive WaitCall where
  | send
  | recv (len : Nat)
  | close
  | readFd (len : Nat)
  | writeFd
  | resume
  | other
  deriving DecidableEq, Repr

/-- Every pipe has one use: it belongs to one end of one channel, or handles of the pipe kinds lead to it. -/
structure State.Apart (s : State) : Prop where
  ends : ∀ c c' side side', s.kernel.channels c ≠ none → s.kernel.channels c' ≠ none → s.ends c side = s.ends c' side' →
    c = c' ∧ side = side'
  handles : ∀ p process i, s.kernel.processes p = some process → (process.handles i).type = .pipeWrite →
    ∀ c side, s.kernel.channels c ≠ none → s.ends c side ≠ (process.handles i).ptr

/-- What is there afterwards is new and without listeners, or has the listeners, flags and number of bytes
that it had before. -/
structure Undisturbed (s s' : State) : Prop where
  channels : ∀ c channel', s'.kernel.channels c = some channel' → channel'.listeners = (fun _ => 0) ∨
    ∃ channel, s.kernel.channels c = some channel ∧ channel'.listeners = channel.listeners ∧
      channel'.isClosed = channel.isClosed ∧ s'.ends c = s.ends c
  pipes : ∀ q pipe', s'.pipes q = some pipe' → pipe'.listener = 0 ∧ pipe'.count = 0 ∨
    ∃ pipe, s.pipes q = some pipe ∧ pipe'.listener = pipe.listener ∧ pipe'.count = pipe.count

/-- A system call on a channel or on a pipe by the current task, the end of one that was blocked, or
anything else that leaves listeners, flags and bytes alone. An end is closed by a system call or when
its process is killed. -/
inductive WaitStep : WaitCall → State → State → Prop
  | send {s s' : State} {h len c : Nat} {side : Fin 2} {data : Nat → Byte} (endpoint : s.Endpoint (toInt h) c side)
      (returned : sysIpcSend s h data len = .ok s') : WaitStep .send s s'
  | recv {s s' : State} {h len c : Nat} {side : Fin 2} {progress : Progress Received} (positive : 0 < len)
      (endpoint : s.Endpoint (toInt h) c side) (returned : sysIpcRecv s h len = .ok (s', progress)) :
      WaitStep (.recv len) s s'
  | resumeRecv {s s' : State} {h len c : Nat} {side : Fin 2} {received : Received} (endpoint : s.Endpoint (toInt h) c side)
      (returned : sysIpcRecvNb s h len = .ok (s', received)) : WaitStep .resume s s'
  | close {s s' : State} {c pid : Nat} {channel : Channel} (found : s.kernel.channels c = some channel)
      (returned : channelClose s c pid = .ok s') : WaitStep .close s s'
  | readFd {s s' : State} {fd len : Nat} {progress : Progress (Option (List Byte))} (positive : 0 < len)
      (returned : sysReadFd s fd len = .ok (s', progress)) : WaitStep (.readFd len) s s'
  | resumeRead {s s' : State} {q len : Nat} {read : List Byte} (returned : pipeRead s q len = .ok (s', read)) :
      WaitStep .resume s s'
  | writeFd {s s' : State} {fd len : Nat} {data : Nat → Byte} {result : Option Nat}
      (returned : sysWriteFd s fd data len = .ok (s', result)) : WaitStep .writeFd s s'
  | other {s s' : State} (rest : Undisturbed s s') (apart : s'.Apart) : WaitStep .other s s'

def WaitCall.Counted : WaitCall → Prop
  | .recv len | .readFd len => u32 len ≠ 0
  | .send | .close | .writeFd | .resume | .other => True

/-- Whoever is registered has an empty pipe, and a peer that has not closed. -/
structure State.Watchful (s : State) : Prop where
  channels : ∀ c channel side, s.kernel.channels c = some channel → channel.listeners side ≠ 0 →
    channel.isClosed (peer side) = false ∧ ∀ pipe, s.pipes (s.ends c (peer side)) = some pipe → pipe.count = 0
  pipes : ∀ q pipe, s.pipes q = some pipe → pipe.listener ≠ 0 → pipe.count = 0

theorem State.Watchful.not_lost (watchful : s.Watchful) : ¬s.Lost := by
  rintro ⟨t, task, nonnull, -, -, ⟨c, channel, side, found, rfl, there⟩ | ⟨q, pipe, found, rfl, bytes⟩⟩
  · obtain ⟨opened, empty⟩ := watchful.channels c channel side found nonnull
    rcases there with closed | ⟨pipe, atEnd, bytes⟩
    · rw [opened] at closed
      cases closed
    · exact bytes (empty pipe atEnd)
  · exact bytes (watchful.pipes q pipe found nonnull)

theorem State.Apart.congr (apart : s.Apart) (processes : s'.kernel.processes = s.kernel.processes) (ends : s'.ends = s.ends)
    (channels : ∀ c, s'.kernel.channels c ≠ none → s.kernel.channels c ≠ none) : s'.Apart := by
  refine ⟨fun c c' side side' there there' => ?_, fun p process i found type c side there => ?_⟩
  · rw [ends]
    exact apart.ends c c' side side' (channels c there) (channels c' there')
  · rw [ends]
    exact apart.handles p process i (processes ▸ found) type c side (channels c there)

theorem State.Apart.setChannel {k : Kernel} {channel' : Channel} (apart : s.Apart) (processes : k.processes = s.kernel.processes)
    (channels : k.channels = s.kernel.channels) (found : s.kernel.channels c = some channel) :
    (s.withKernel (k.setChannel c channel')).Apart := by
  refine apart.congr processes rfl fun c' there => ?_
  by_cases here : c' = c
  · simp [here, found]
  · simpa [here, channels] using there

namespace State.Watchful

variable {k : Kernel}

theorem withKernel (watchful : s.Watchful) (channels : k.channels = s.kernel.channels) : (s.withKernel k).Watchful :=
  ⟨fun c channel side found => watchful.channels c channel side (channels ▸ found), watchful.pipes⟩

theorem setChannel {channel' : Channel} (watchful : s.Watchful) (channels : k.channels = s.kernel.channels)
    (rest : ∀ side, channel'.listeners side ≠ 0 →
      channel'.isClosed (peer side) = false ∧ ∀ pipe, s.pipes (s.ends c (peer side)) = some pipe → pipe.count = 0) :
    (s.withKernel (k.setChannel c channel')).Watchful := by
  refine ⟨fun c' channel side found listening => ?_, watchful.pipes⟩
  by_cases here : c' = c
  · subst here
    obtain rfl : channel' = channel := by simpa using found
    exact rest side listening
  · rw [State.withKernel_kernel, Kernel.setChannel_channels, update_of_ne here, channels] at found
    exact watchful.channels c' channel side found listening

theorem setPipe (watchful : s.Watchful) (found : s.pipes q = some pipe) (less : pipe'.count ≤ pipe.count)
    (listening : pipe'.listener ≠ 0 → pipe'.count = 0) : (s.setPipe q pipe').Watchful := by
  refine ⟨fun c channel side there waits => ?_, fun r other there waits => ?_⟩
  · obtain ⟨opened, empty⟩ := watchful.channels c channel side there waits
    refine ⟨opened, fun other atEnd => ?_⟩
    by_cases here : s.ends c (peer side) = q
    · obtain rfl : pipe' = other := by simpa [here] using atEnd
      exact Nat.eq_zero_of_le_zero (empty pipe (here ▸ found) ▸ less)
    · exact empty other (by simpa [here] using atEnd)
  · by_cases here : r = q
    · obtain rfl : pipe' = other := by simpa [here] using there
      exact listening waits
    · exact watchful.pipes r other (by simpa [here] using there) waits

theorem write (watchful : s.Watchful) (silent : pipe'.listener = 0)
    (nobody : ∀ c channel side, s.kernel.channels c = some channel → channel.listeners side ≠ 0 → s.ends c (peer side) ≠ q) :
    (s.setPipe q pipe').Watchful := by
  refine ⟨fun c channel side there waits => ?_, fun r other there waits => ?_⟩
  · obtain ⟨opened, empty⟩ := watchful.channels c channel side there waits
    refine ⟨opened, fun other atEnd => empty other ?_⟩
    simpa [nobody c channel side there waits] using atEnd
  · by_cases here : r = q
    · obtain rfl : pipe' = other := by simpa [here] using there
      exact absurd silent waits
    · exact watchful.pipes r other (by simpa [here] using there) waits

theorem undisturbed (watchful : s.Watchful) (rest : Undisturbed s s') : s'.Watchful := by
  refine ⟨fun c channel' side there waits => ?_, fun q pipe' there waits => ?_⟩
  · rcases rest.channels c channel' there with silent | ⟨channel, found, listeners, closed, ends⟩
    · exact absurd (congrFun silent side) waits
    · obtain ⟨opened, empty⟩ := watchful.channels c channel side found (listeners ▸ waits)
      refine ⟨closed ▸ opened, fun pipe' atEnd => ?_⟩
      rw [ends] at atEnd
      rcases rest.pipes _ pipe' atEnd with ⟨-, none⟩ | ⟨pipe, before, -, count⟩
      · exact none
      · rw [count, empty pipe before]
  · rcases rest.pipes q pipe' there with ⟨silent, -⟩ | ⟨pipe, before, listener, count⟩
    · exact absurd silent waits
    · rw [count, watchful.pipes q pipe before (listener ▸ waits)]

end State.Watchful

theorem Pipe.fetch_count (most : Nat) : (pipe.fetch most).1.count ≤ pipe.count := by
  induction most generalizing pipe with
  | zero => exact Nat.le_refl _
  | succ most ih =>
    rw [Pipe.fetch]
    split
    · exact Nat.le_refl _
    · exact ih.trans (Nat.sub_le ..)

theorem Pipe.count_of_fetch {most : Nat} (some : most ≠ 0) (none : (pipe.fetch most).2 = []) : pipe.count = 0 := by
  obtain ⟨more, rfl⟩ := Nat.exists_eq_add_one_of_ne_zero some
  rw [Pipe.fetch] at none
  split at none
  next empty => exact empty
  next => cases none

theorem State.Watchful.read {most : Nat} {read : List Byte} (watchful : s.Watchful)
    (ret : pipeRead s q most = .ok (s', read)) : s'.Watchful := by
  obtain ⟨pipe, found, -, rfl⟩ := pipeRead_ok ret
  apply watchful.setPipe found (Pipe.fetch_count most)
  intro waits
  rw [Pipe.fetch_listener] at waits
  exact Nat.eq_zero_of_le_zero (watchful.pipes q pipe found waits ▸ Pipe.fetch_count most)

theorem toUint_toInt (arg : Nat) : toUint (toInt arg) = u32 arg := by
  have small : u32 arg < 2 ^ 32 := by
    unfold u32
    omega
  simp only [toUint, toInt]
  split <;> omega

theorem listenAt_ok {t : Nat} {added : Bool} (found : s.kernel.channels c = some channel)
    (ret : listenAt s c side t = .ok (s', added)) : added = false ∧ s' = s ∨ added = true ∧
      s' = s.withKernel (s.kernel.setChannel c { channel with listeners := update channel.listeners side t }) := by
  rw [listenAt, State.channel_eq found, ok_bind] at ret
  split at ret
  · obtain ⟨rfl, rfl⟩ := ok_inj ret
    exact .inl ⟨rfl, rfl⟩
  · simp only [State.setListener, found] at ret
    obtain ⟨rfl, rfl⟩ := ok_inj ret
    exact .inr ⟨rfl, rfl⟩

/-- The call ends with what `channel_recv` returns, or with a registration when that was nothing. -/
theorem sysIpcRecv_ok {h len : Nat} {progress : Progress Received} (endpoint : s.Endpoint (toInt h) c side)
    (ret : sysIpcRecv s h len = .ok (s', progress)) : ∃ mid received, channelRecv s (toInt h) (toInt len) = .ok (mid, received) ∧
      (s' = mid ∨ received = .bytes [] ∧ ∃ listening, listenAt mid c side mid.kernel.currentTask = .ok (listening, true) ∧
        listening.block = .ok s') := by
  obtain ⟨⟨mid, received⟩, fetched, ret⟩ := of_bind ret
  refine ⟨mid, received, fetched, ?_⟩
  dsimp only at ret
  split at ret
  next => exact .inl (ok_inj ret).1.symm
  next nothing =>
    have nothing : received = .bytes [] := by
      cases received with
      | closed => exact absurd (by decide) nothing
      | bytes read => simpa [Received.value] using nothing
    have endpoint' : mid.Endpoint (toInt h) c side := by
      obtain ⟨_, -, ⟨-, rfl, -⟩ | ⟨-, _, -, read⟩⟩ := channelRecv_ok endpoint fetched
      · exact endpoint
      · obtain ⟨_, -, -, rfl⟩ := pipeRead_ok read
        exact endpoint
    rw [channelSetListener_eq endpoint'] at ret
    obtain ⟨-, -, -, channel, -, -, -, -, found, -⟩ := endpoint'
    obtain ⟨⟨after, added⟩, registered, rest⟩ := of_bind ret
    rcases listenAt_ok found registered with ⟨rfl, same⟩ | ⟨rfl, -⟩
    · exact .inl ((ok_inj rest).1.symm.trans same)
    · obtain ⟨final, blocked, rest⟩ := of_bind rest
      obtain ⟨rfl, -⟩ := ok_inj rest
      exact .inr ⟨nothing, after, registered, blocked⟩

theorem handleGet_entry {process : Process} {h : Int} {entry : HandleEntry} (got : handleGet process h = some entry) :
    ∃ i, entry = process.handles i := by
  rw [handleGet] at got
  split at got
  · cases got
  · split at got
    · cases got
    · exact ⟨h.toNat, (some.inj got).symm⟩

theorem pipeHandle_entry {type : HandleType} {fd : Nat} (ret : pipeHandle s type fd = .ok (some q)) :
    ∃ p process i, s.kernel.processes p = some process ∧ (process.handles i).type = type ∧ (process.handles i).ptr = q := by
  obtain ⟨⟨p, process⟩, current, ret⟩ := of_bind ret
  obtain ⟨p', process', -, record, same⟩ := of_bind₂ current
  obtain ⟨rfl, rfl⟩ := ok_inj same
  dsimp only at ret
  split at ret
  · cases ret
  next entry got =>
    have chosen := ok.inj ret
    split at chosen
    next kind =>
      obtain ⟨i, rfl⟩ := handleGet_entry got
      exact ⟨p', process', i, Kernel.process_eq_ok.mp record, kind, some.inj chosen⟩
    next => cases chosen

theorem State.block_frame (ret : s.block = .ok s') :
    ∃ k, s' = s.withKernel k ∧ k.channels = s.kernel.channels ∧ k.processes = s.kernel.processes := by
  obtain ⟨k, mid, blocked, scheduled, rfl⟩ := State.block_ok ret
  refine ⟨k, rfl, (schedule_channels scheduled).trans (taskSetBlocked_channels blocked), ?_⟩
  exact (schedule_sched scheduled).2.processes.trans (taskSetBlocked_sched blocked).2.processes

theorem listening_of_cleared {listeners : Fin 2 → Nat} {other : Fin 2}
    (waits : update listeners (peer side) 0 other ≠ 0) : other = side ∧ listeners other ≠ 0 := by
  rcases eq_or_eq_peer side other with rfl | rfl
  · rw [update_of_ne (peer_ne other).symm] at waits
    exact ⟨rfl, waits⟩
  · exact absurd (update_self ..) waits

def State.Alert (s : State) : Prop := s.Apart ∧ s.Watchful

namespace State.Alert

theorem block (alert : s.Alert) (ret : s.block = .ok s') : s'.Alert := by
  obtain ⟨k, rfl, channels, processes⟩ := State.block_frame ret
  exact ⟨alert.1.congr processes rfl fun c there => channels ▸ there, alert.2.withKernel channels⟩

theorem send {h len : Nat} {data : Nat → Byte} (alert : s.Alert) (endpoint : s.Endpoint (toInt h) c side)
    (ret : sysIpcSend s h data len = .ok s') : s'.Alert := by
  obtain ⟨channel, pipe, tasks, found, -, rfl⟩ := channelSend_written endpoint ret
  have apart : (s.withKernel ({ s.kernel with tasks := tasks }.setChannel c
      { channel with listeners := update channel.listeners (peer side) 0 })).Apart :=
    alert.1.setChannel rfl rfl found
  refine ⟨apart.congr rfl rfl fun _ => id, State.Watchful.write (alert.2.setChannel rfl fun other waits => ?_) rfl ?_⟩
  · obtain ⟨rfl, listening⟩ := listening_of_cleared waits
    exact alert.2.channels c channel other found listening
  · -- the only one who waits for this pipe has been woken up
    intro c' channel' other there waits same
    obtain ⟨rfl, rfl⟩ := apart.ends c' c (peer other) side (there ▸ some_ne_none _) (by simp) same
    simp only [State.withKernel_kernel, Kernel.setChannel_channels, update_self, some.injEq] at there
    rw [← there] at waits
    exact peer_ne other (listening_of_cleared waits).1.symm

theorem recvNb {h : Int} {len : Int} {received : Received} (alert : s.Alert) (endpoint : s.Endpoint h c side)
    (ret : channelRecv s h len = .ok (s', received)) : s'.Alert := by
  obtain ⟨_, -, ⟨-, rfl, -⟩ | ⟨-, read, -, fetched⟩⟩ := channelRecv_ok endpoint ret
  · exact alert
  · refine ⟨?_, alert.2.read fetched⟩
    obtain ⟨_, -, -, rfl⟩ := pipeRead_ok fetched
    exact alert.1.congr rfl rfl fun _ => id

theorem recv {h len : Nat} {progress : Progress Received} (alert : s.Alert) (counted : u32 len ≠ 0)
    (endpoint : s.Endpoint (toInt h) c side) (ret : sysIpcRecv s h len = .ok (s', progress)) : s'.Alert := by
  obtain ⟨mid, received, fetched, rfl | ⟨rfl, listening, registered, blocked⟩⟩ := sysIpcRecv_ok endpoint ret
  · exact alert.recvNb endpoint fetched
  obtain ⟨apart, watchful⟩ := alert.recvNb endpoint fetched
  obtain ⟨channel, found, ⟨-, -, closed⟩ | ⟨opened, read, same, taken⟩⟩ := channelRecv_ok endpoint fetched
  · cases closed
  obtain ⟨pipe, atEnd, rfl, rfl⟩ := pipeRead_ok taken
  -- nothing was read, so nothing is there
  have empty : (pipe.fetch (toUint (toInt len))).1.count = 0 := by
    have none := Pipe.count_of_fetch (toUint_toInt len ▸ counted) (Received.bytes.inj same).symm
    exact Nat.eq_zero_of_le_zero (none ▸ Pipe.fetch_count _)
  rcases listenAt_ok (by exact found) registered with ⟨same, -⟩ | ⟨-, rfl⟩
  · cases same
  refine State.Alert.block ⟨apart.setChannel rfl rfl found, watchful.setChannel rfl fun other waits => ?_⟩ blocked
  rcases eq_or_eq_peer side other with rfl | rfl
  · refine ⟨opened, fun pipe' there => ?_⟩
    obtain rfl : (pipe.fetch (toUint (toInt len))).1 = pipe' := by simpa using there
    exact empty
  · dsimp only at waits
    rw [update_of_ne (peer_ne _)] at waits
    exact watchful.channels c channel _ found waits

theorem close {pid : Nat} (alert : s.Alert) (found : s.kernel.channels c = some channel)
    (ret : channelClose s c pid = .ok s') : s'.Alert := by
  cases has : sideOf channel pid with
  | none =>
    have neither := sideOf_eq_none has
    rw [channelClose, State.channel_eq found, ok_bind, if_neg neither.1, if_neg neither.2] at ret
    exact ok.inj ret ▸ alert
  | some side =>
    rw [channelClose_eq found has] at ret
    obtain ⟨tasks, rfl⟩ := closeFrom_ok found ret
    refine ⟨alert.1.setChannel rfl rfl found, alert.2.setChannel rfl fun other waits => ?_⟩
    obtain ⟨rfl, listening⟩ := listening_of_cleared waits
    -- the flag of the other end is as it was
    dsimp only
    rw [update_of_ne (peer_ne other)]
    exact alert.2.channels c channel other found listening

theorem readFd {fd len : Nat} {progress : Progress (Option (List Byte))} (alert : s.Alert) (counted : u32 len ≠ 0)
    (ret : sysReadFd s fd len = .ok (s', progress)) : s'.Alert := by
  obtain ⟨handle, opened, rest⟩ := of_bind ret
  cases handle with
  | none =>
    obtain ⟨rfl, -⟩ := ok_inj rest
    exact alert
  | some q =>
    obtain ⟨mid, read, fetched, outcome⟩ := sysReadFd_ok opened ret
    have watchful := alert.2.read fetched
    obtain ⟨pipe, found, rfl, rfl⟩ := pipeRead_ok fetched
    have apart : (s.setPipe q (pipe.fetch (u32 len)).1).Apart := alert.1.congr rfl rfl fun _ => id
    rcases outcome with ⟨rfl, -⟩ | ⟨none, -, listening, registered, blocked⟩
    · exact ⟨apart, watchful⟩
    · have empty : (pipe.fetch (u32 len)).1.count = 0 :=
        Nat.eq_zero_of_le_zero (Pipe.count_of_fetch counted none ▸ Pipe.fetch_count _)
      obtain ⟨pipe', there, registered⟩ := of_bind registered
      have there := State.pipe_eq_ok.mp there
      obtain rfl : (pipe.fetch (u32 len)).1 = pipe' := by simpa using there
      split at registered
      · cases (ok_inj registered).2
      · obtain ⟨rfl, -⟩ := ok_inj registered
        have registered : State.Alert ((s.setPipe q (pipe.fetch (u32 len)).1).setPipe q
            { (pipe.fetch (u32 len)).1 with listener := s.kernel.currentTask }) :=
          ⟨apart.congr rfl rfl fun _ => id, watchful.setPipe there (Nat.le_refl _) fun _ => empty⟩
        exact registered.block blocked

theorem writeFd {fd len : Nat} {data : Nat → Byte} {res : Option Nat} (alert : s.Alert)
    (ret : sysWriteFd s fd data len = .ok (s', res)) : s'.Alert := by
  obtain ⟨handle, opened, rest⟩ := of_bind ret
  cases handle with
  | none =>
    obtain ⟨rfl, -⟩ := ok_inj rest
    exact alert
  | some q =>
    obtain ⟨-, written⟩ := sysWriteFd_ok opened ret
    obtain ⟨pipe, tasks, found, rfl⟩ := pipeWrite_tasks written
    refine ⟨alert.1.congr rfl rfl fun _ => id, State.Watchful.write (alert.2.withKernel rfl) rfl ?_⟩
    -- the pipe of a handle is not the one of a channel
    intro c channel side there _
    obtain ⟨p, process, i, record, type, rfl⟩ := pipeHandle_entry opened
    exact alert.1.handles p process i record type c (peer side) (by simp [show s.kernel.channels c = _ from there])

end State.Alert

theorem WaitStep.alert {call : WaitCall} (alert : s.Alert) (step : WaitStep call s s') (counted : call.Counted) : s'.Alert := by
  cases step with
  | send endpoint ret => exact alert.send endpoint ret
  | recv _ endpoint ret => exact alert.recv counted endpoint ret
  | resumeRecv endpoint ret => exact alert.recvNb endpoint ret
  | close found ret => exact alert.close found ret
  | readFd _ ret => exact alert.readFd counted ret
  | resumeRead ret =>
    refine ⟨?_, alert.2.read ret⟩
    obtain ⟨_, -, -, rfl⟩ := pipeRead_ok ret
    exact alert.1.congr rfl rfl fun _ => id
  | writeFd ret => exact alert.writeFd ret
  | other rest apart => exact ⟨apart, alert.2.undisturbed rest⟩

structure State.Silent (s : State) : Prop where
  channels : ∀ c channel, s.kernel.channels c = some channel → channel.listeners = fun _ => 0
  pipes : ∀ q pipe, s.pipes q = some pipe → pipe.listener = 0

/-- In every run in which no read asks for a multiple of 2^32 bytes, nobody is blocked while there is
something to read, or while the peer has closed. -/
theorem no_lost_wakeup (apart : s.Apart) (silent : s.Silent)
    (run : ReflTransGen (fun s s' => ∃ call, WaitStep call s s' ∧ call.Counted) s s') : ¬s'.Lost := by
  have watchful : s.Watchful := by
    refine ⟨fun c channel side found waits => ?_, fun q pipe found waits => ?_⟩
    · exact absurd (congrFun (silent.channels c channel found) side) waits
    · exact absurd (silent.pipes q pipe found) waits
  have alert := invariant_of_run State.Alert (fun _ _ alert ⟨_, step, counted⟩ => step.alert alert counted) run ⟨apart, watchful⟩
  exact alert.2.not_lost

/-- A process with both ends of a new pipe. Its task runs, and there is nothing else to run but the idle
task. -/
def soleReader : State :=
  let running : Task := { plainTask 1 0x10 with state := .running, next := 0x20, prev := 0x20 }
  let kernel := (pipeOwner.kernel.setTask 0x20 running).setTask 0x30 (plainTask 2 0)
  pipeCreate (pipeOwner.withKernel { kernel with taskList := 0x20, idle := 0x30, schedulerRunning := true }) 0x100 fun _ => 0

theorem soleReader_apart : soleReader.Apart :=
  ⟨fun _ _ _ _ there => absurd rfl there, fun _ _ _ _ _ _ _ there => absurd rfl there⟩

theorem soleReader_silent : soleReader.Silent := by
  refine ⟨fun c channel found => ?_, fun q pipe found => ?_⟩
  · cases found
  · by_cases here : q = 0x100
    · have created : soleReader.pipes 0x100 = some ⟨fun _ => 0, 0, 0, 0, 1, 0⟩ := pipeCreate_pipe ..
      rw [here, created] at found
      exact some.inj found ▸ rfl
    · have elsewhere : soleReader.pipes q = none := update_of_ne here ..
      rw [elsewhere] at found
      cases found

theorem soleReader_blocks_on_byte : (sysWriteFd soleReader 1 (fun _ => 7) 1 >>= fun written =>
    sysReadFd written.1 0 (2 ^ 32) >>= fun read =>
    pure ((read.1.kernel.tasks 0x20).map Task.state, (read.1.pipes 0x100).map fun pipe => (pipe.listener, pipe.count))) =
    .ok (some .blocked, some (0x20, 1)) := by
  decide +kernel

/-- One byte is in the pipe, and a read of 2^32 bytes blocks. -/
theorem cut_length_blocks : soleReader.Apart ∧ soleReader.Silent ∧
    ∃ s, ReflTransGen (fun s s' => ∃ call, WaitStep call s s') soleReader s ∧ s.Lost := by
  obtain ⟨⟨s₁, _⟩, written, rest⟩ := of_bind soleReader_blocks_on_byte
  obtain ⟨⟨s₂, _⟩, read, seen⟩ := of_bind rest
  obtain ⟨state, slots⟩ := ok_inj seen
  obtain ⟨task, atTask, blocked⟩ := Option.map_eq_some_iff.mp state
  obtain ⟨pipe, atPipe, slot⟩ := Option.map_eq_some_iff.mp slots
  obtain ⟨listener, count⟩ := Prod.mk.inj slot
  have steps : ReflTransGen (fun s s' => ∃ call, WaitStep call s s') soleReader s₂ :=
    .tail (.single ⟨_, .writeFd written⟩) ⟨_, .readFd (by decide) read⟩
  refine ⟨soleReader_apart, soleReader_silent, s₂, steps, 0x20, task, by decide, atTask, blocked, .inr ?_⟩
  exact ⟨0x100, pipe, atPipe, listener, by rw [count]; decide⟩

theorem soleReader_blocks : (sysReadFd soleReader 0 1 >>= fun read =>
    pure ((read.1.kernel.tasks 0x20).map Task.state, (read.1.pipes 0x100).map Pipe.listener)) = .ok (some .blocked, some 0x20) := by
  decide +kernel

/-- A read of one byte blocks on the empty pipe. -/
theorem reader_blocks_on_empty : ∃ s, ReflTransGen (fun s s' => ∃ call, WaitStep call s s' ∧ call.Counted) soleReader s ∧
    (s.kernel.tasks 0x20).map Task.state = some .blocked ∧ (s.pipes 0x100).map Pipe.listener = some 0x20 ∧ ¬s.Lost := by
  obtain ⟨⟨s, _⟩, read, seen⟩ := of_bind soleReader_blocks
  obtain ⟨state, slot⟩ := ok_inj seen
  have steps : ReflTransGen (fun s s' => ∃ call, WaitStep call s s' ∧ call.Counted) soleReader s :=
    .single ⟨.readFd 1, .readFd (by decide) read, (by decide +kernel : u32 1 ≠ 0)⟩
  exact ⟨s, steps, state, slot, no_lost_wakeup soleReader_apart soleReader_silent steps⟩

end Xos.Ipc
