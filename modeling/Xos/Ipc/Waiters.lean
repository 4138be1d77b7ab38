import Xos.Ipc.Pipe
import Xos.Scheduler.Waiters

/-!
# Tasks that no call on pipes and channels wakes up

Every call registers its caller and no one else, and wakes up whom it finds in a slot. When a pipe is taken for a
channel, the slots are bytes of its buffer.
-/
namespace Xos.Ipc

open Lib Memory Outcome Scheduler Syscall Word Function

variable {s : State} {k : Kernel} {t u q c i p : Nat}

/-- A task that does not run, is not to run, and is registered nowhere. -/
structure State.Dormant (s : State) (t : Nat) : Prop where
  kernel : s.kernel.Dormant t
  pipes : ∀ q pipe, s.pipes q = some pipe → pipe.listener ≠ t
  servers : ∀ i, (s.servers i).listener ≠ t

def State.LeadsToChannel (s : State) (h : Int) : Prop :=
  ∀ p process entry, s.current = .ok (p, process) → handleGet process h = some entry → s.kernel.channels entry.ptr = none →
    s.pipes entry.ptr = none

namespace State.Dormant

theorem withKernel (dormant : s.Dormant t) (kernel : k.Dormant t) : (s.withKernel k).Dormant t := { dormant with kernel := kernel }

theorem setPipe {pipe : Pipe} (dormant : s.Dormant t) (silent : pipe.listener ≠ t) : (s.setPipe q pipe).Dormant t := by
  refine { dormant with pipes := fun r record found => ?_ }
  by_cases here : r = q
  · obtain rfl : pipe = record := by simpa [here] using found
    exact silent
  · exact dormant.pipes r record (by simpa [here] using found)

theorem setServer {server : Server} (dormant : s.Dormant t) (silent : server.listener ≠ t) : (s.setServer i server).Dormant t := by
  refine { dormant with servers := fun j => ?_ }
  by_cases here : j = i
  · simpa [here] using silent
  · simpa [here] using dormant.servers j

theorem setListener {side : Fin 2} (dormant : s.Dormant t) (other : u ≠ t) : Ensures (s.setListener c side u) (·.Dormant t) := by
  unfold State.setListener
  split
  next _ channel found =>
    apply Ensures.pure
    apply dormant.withKernel
    apply dormant.kernel.setChannel
    intro end'
    by_cases here : end' = side
    · simpa [here] using other
    · simpa [here] using dormant.kernel.listening c channel end' found
  next pipe _ found => exact .pure (dormant.setPipe (dormant.pipes c pipe found))
  next => exact .stop _

theorem setClosed {side : Fin 2} (dormant : s.Dormant t) : Ensures (s.setClosed c side) fun s' => s'.Dormant t ∧
    (s.kernel.channels c ≠ none → s'.kernel.channels c ≠ none) := by
  unfold State.setClosed
  split
  next _ channel found =>
    apply Ensures.pure
    refine ⟨dormant.withKernel (dormant.kernel.setChannel fun end' => ?_), fun _ => by simp⟩
    exact dormant.kernel.listening c channel end' found
  next pipe _ found => exact .pure ⟨dormant.setPipe (dormant.pipes c pipe found), fun there => there⟩
  next => exact .stop _

theorem taskSetReady (dormant : s.Dormant t) (other : u ≠ t) : Ensures (s.taskSetReady u) (·.Dormant t) :=
  .bind (dormant.kernel.taskSetReady other) fun _ kernel => .pure (dormant.withKernel kernel)

theorem block (dormant : s.Dormant t) : Ensures s.block (·.Dormant t) := by
  refine .bind dormant.kernel.taskSetBlocked fun k kernel => ?_
  exact .bind kernel.schedule fun k kernel => .pure (dormant.withKernel kernel)

theorem handleAlloc {type : HandleType} {ptr : Nat} (dormant : k.Dormant t) :
    Ensures (handleAlloc k p type ptr) (·.1.Dormant t) := by
  refine .read fun process found => ?_
  split
  · exact .pure (dormant.setProcess (dormant.waiting p process (Kernel.process_eq_ok.mp found)))
  · exact .pure dormant

theorem pipeCreate {buf : Bytes} (dormant : s.Dormant t) : (pipeCreate s q buf).Dormant t :=
  dormant.setPipe dormant.kernel.null.symm

theorem pipeRetain (dormant : s.Dormant t) : Ensures (pipeRetain s q) (·.Dormant t) := by
  refine .read fun pipe found => ?_
  exact .pure (dormant.setPipe (dormant.pipes q pipe (State.pipe_eq_ok.mp found)))

theorem pipeRead {most : Nat} (dormant : s.Dormant t) : Ensures (pipeRead s q most) (·.1.Dormant t) := by
  refine .read fun pipe found => ?_
  apply Ensures.pure
  apply dormant.setPipe
  rw [Pipe.fetch_listener]
  exact dormant.pipes q pipe (State.pipe_eq_ok.mp found)

theorem pipeWrite {data : Nat → Byte} {len : Nat} (dormant : s.Dormant t) :
    Ensures (pipeWrite s q data len) fun s' => s'.Dormant t ∧ s'.kernel.channels = s.kernel.channels := by
  intro s' ret
  obtain ⟨pipe, k, found, rfl, woken⟩ := pipeWrite_ok ret
  have other := dormant.pipes q pipe found
  have kernel : k.Dormant t ∧ k.channels = s.kernel.channels := by
    rcases woken with ⟨-, rfl⟩ | woken
    · exact ⟨dormant.kernel, rfl⟩
    · refine ⟨dormant.kernel.taskSetReady other k woken, ?_⟩
      obtain ⟨task, -, woken⟩ := Outcome.of_bind woken
      split at woken
      · obtain ⟨again, -, rfl⟩ := Kernel.updateTask_eq_ok.mp woken
        rfl
      · rw [Except.ok.inj woken]
  exact ⟨(dormant.withKernel kernel.1).setPipe dormant.kernel.null.symm, kernel.2⟩

theorem pipeAddListener (dormant : s.Dormant t) : Ensures (pipeAddListener s q s.kernel.currentTask) (·.1.Dormant t) := by
  refine .read fun pipe _ => ?_
  refine .guard dormant fun _ => ?_
  exact .pure (dormant.setPipe dormant.kernel.current)

theorem sysPipe {buf : Bytes} (dormant : s.Dormant t) : Ensures (sysPipe s q buf) (·.1.Dormant t) := by
  have created : (Ipc.pipeCreate s q buf).Dormant t := dormant.pipeCreate
  refine .read fun p _ => ?_
  refine .bind (handleAlloc created.kernel) ?_
  rintro ⟨k, readFd⟩ kernel
  refine .bind (handleAlloc kernel) ?_
  rintro ⟨k, writeFd⟩ kernel
  have allocated := created.withKernel kernel
  refine .guard allocated fun _ => ?_
  exact .bind allocated.pipeRetain fun s dormant => .pure dormant

theorem sysReadFd {fd len : Nat} (dormant : s.Dormant t) : Ensures (sysReadFd s fd len) (·.1.Dormant t) := by
  refine .read fun handle _ => ?_
  split
  · exact .pure dormant
  · refine .bind dormant.pipeRead ?_
    rintro ⟨s, read⟩ dormant
    refine .guard dormant fun _ => ?_
    refine .bind dormant.pipeAddListener ?_
    rintro ⟨s, listening⟩ dormant
    refine .guard dormant fun _ => ?_
    exact .bind dormant.block fun s dormant => .pure dormant

theorem sysWriteFd {fd len : Nat} {data : Nat → Byte} (dormant : s.Dormant t) :
    Ensures (sysWriteFd s fd data len) (·.1.Dormant t) := by
  refine .read fun handle _ => ?_
  split
  · exact .pure dormant
  · exact .bind dormant.pipeWrite fun s written => .pure written.1

theorem isChannel {ch : ChannelRecord} (genuine : s.kernel.channels c = none → s.pipes c = none)
    (read : s.channel c = .ok ch) : s.kernel.channels c ≠ none := by
  intro none
  rw [State.channel, none, genuine none] at read
  cases read

section

variable (dormant : s.Dormant t)
include dormant

theorem wakeListener {side : Fin 2} (there : s.kernel.channels c ≠ none) : Ensures (wakeListener s c side) (·.Dormant t) := by
  refine .read fun ch read => ?_
  have other : ch.listeners side ≠ t := by
    obtain ⟨channel, found⟩ := Option.ne_none_iff_exists'.mp there
    rw [State.channel, found] at read
    obtain rfl := Except.ok.inj read
    exact dormant.kernel.listening c channel side found
  apply Ensures.ite
  · intro _
    exact .bind (dormant.taskSetReady other) fun s dormant => dormant.setListener dormant.kernel.null.symm
  · intro _
    exact .pure dormant

theorem sendFrom {side peer : Fin 2} {data : Nat → Byte} {len : Int}
    (there : s.kernel.channels c ≠ none) : Ensures (sendFrom s c side peer data len) (·.Dormant t) := by
  refine .read fun ch _ => ?_
  refine .bind dormant.pipeWrite fun s' written => ?_
  exact written.1.wakeListener (written.2 ▸ there)

theorem channelSend {h : Int} {data : Nat → Byte} {len : Int} (genuine : s.LeadsToChannel h) :
    Ensures (channelSend s h data len) (·.Dormant t) := by
  apply Ensures.read
  rintro ⟨p, process⟩ current
  dsimp only
  split
  · exact .pure dormant
  next entry handle =>
    refine .guard dormant fun _ => ?_
    refine .read fun ch read => ?_
    have there := isChannel (genuine p process entry current handle) read
    apply Ensures.ite
    · intro _
      exact dormant.sendFrom there
    · intro _
      apply Ensures.ite
      · intro _
        exact dormant.sendFrom there
      · intro _
        exact .pure dormant

theorem recvFrom {peer : Fin 2} {len : Int} : Ensures (recvFrom s c peer len) (·.1.Dormant t) := by
  refine .read fun ch _ => ?_
  refine .guard dormant fun _ => ?_
  exact .bind dormant.pipeRead fun read dormant => .pure dormant

theorem channelRecv {h len : Int} : Ensures (channelRecv s h len) (·.1.Dormant t) := by
  apply Ensures.read
  rintro ⟨p, process⟩ _
  dsimp only
  split
  · exact .pure dormant
  · refine .guard dormant fun _ => ?_
    refine .read fun ch _ => ?_
    apply Ensures.ite
    · intro _
      exact dormant.recvFrom
    · intro _
      apply Ensures.ite
      · intro _
        exact dormant.recvFrom
      · intro _
        exact .pure dormant

theorem listenAt {side : Fin 2} (other : u ≠ t) : Ensures (listenAt s c side u) (·.1.Dormant t) := by
  refine .read fun ch _ => ?_
  refine .guard dormant fun _ => ?_
  exact .bind (dormant.setListener other) fun s dormant => .pure dormant

theorem channelSetListener {h : Int} (other : u ≠ t) : Ensures (channelSetListener s h u) (·.1.Dormant t) := by
  refine .read fun task _ => ?_
  refine .read fun process _ => ?_
  split
  · exact .pure dormant
  · refine .guard dormant fun _ => ?_
    refine .read fun ch _ => ?_
    apply Ensures.ite
    · intro _
      exact dormant.listenAt other
    · intro _
      apply Ensures.ite
      · intro _
        exact dormant.listenAt other
      · intro _
        exact .pure dormant

theorem sysIpcRecv {h len : Nat} : Ensures (sysIpcRecv s h len) (·.1.Dormant t) := by
  refine .bind dormant.channelRecv ?_
  rintro ⟨s, received⟩ dormant
  refine .guard dormant fun _ => ?_
  refine .bind (dormant.channelSetListener dormant.kernel.current) ?_
  rintro ⟨s, listening⟩ dormant
  refine .guard dormant fun _ => ?_
  exact .bind dormant.block fun s dormant => .pure dormant

theorem sysIpcChannelClose {h : Nat} (genuine : s.LeadsToChannel (toInt h)) : Ensures (sysIpcChannelClose s h) (·.Dormant t) := by
  apply Ensures.read
  rintro ⟨p, process⟩ current
  dsimp only
  split
  · exact .pure dormant
  next entry handle =>
    refine .read fun ch read => ?_
    have there := isChannel (genuine p process entry current handle) read
    have closed {side other : Fin 2} : Ensures (do
        let s ← s.setClosed entry.ptr side
        Ipc.wakeListener s entry.ptr other) (·.Dormant t) :=
      .bind dormant.setClosed fun s closed => closed.1.wakeListener (closed.2 there)
    apply Ensures.ite
    · intro _
      exact closed
    · intro _
      apply Ensures.ite
      · intro _
        exact closed
      · intro _
        exact .pure dormant

theorem ipcServer {identifier : List Byte} : (ipcServer s identifier).1.Dormant t := by
  unfold Ipc.ipcServer
  split
  · exact dormant
  · exact dormant
  · exact dormant.setServer dormant.kernel.current

theorem dequeueIncomming : (dequeueIncomming s i).1.Dormant t := by
  unfold Ipc.dequeueIncomming
  dsimp only
  split
  · exact dormant
  · exact dormant.setServer (dormant.servers i)

theorem enqueueIncomming : (enqueueIncomming s i c).Dormant t := by
  unfold Ipc.enqueueIncomming
  dsimp only
  split
  · exact dormant
  · exact dormant.setServer (dormant.servers i)

theorem acceptChannel : Ensures (acceptChannel s c) (·.1.Dormant t) := by
  apply Ensures.read
  rintro ⟨p, process⟩ _
  refine .bind (dormant.kernel.updateChannel fun _ _ listening => listening) fun k kernel => ?_
  refine .bind (handleAlloc kernel) ?_
  rintro ⟨k, h⟩ kernel
  exact .pure (dormant.withKernel kernel)

theorem ipcAccept {h : Int} : Ensures (ipcAccept s h) (·.1.Dormant t) := by
  unfold Ipc.ipcAccept
  split
  · exact .pure dormant
  next i _ =>
    have taken : (Ipc.dequeueIncomming s i).1.Dormant t := dormant.dequeueIncomming
    apply Ensures.ite
    · intro _
      refine .guard taken fun _ => ?_
      exact .bind (taken.setServer taken.kernel.current).block fun s dormant => .pure dormant
    · intro _
      exact .bind taken.acceptChannel fun accepted dormant => .pure dormant

theorem ipcAcceptNb {h : Int} : Ensures (ipcAcceptNb s h) (·.1.Dormant t) := by
  unfold Ipc.ipcAcceptNb
  split
  · exact .pure dormant
  next i _ =>
    have taken : (Ipc.dequeueIncomming s i).1.Dormant t := dormant.dequeueIncomming
    refine .guard taken fun _ => ?_
    exact taken.acceptChannel

theorem wakeServer : Ensures (wakeServer s i) (·.Dormant t) := by
  apply Ensures.ite
  · intro _
    refine .bind (dormant.taskSetReady (dormant.servers i)) fun s dormant => ?_
    exact .pure (dormant.setServer dormant.kernel.null.symm)
  · intro _
    exact .pure dormant

theorem ipcConnect {identifier : List Byte} {q₀ q₁ : Nat} {buf₀ buf₁ : Bytes} :
    Ensures (ipcConnect s identifier c q₀ q₁ buf₀ buf₁) (·.1.Dormant t) := by
  unfold Ipc.ipcConnect
  split
  · exact .pure dormant
  · apply Ensures.read
    rintro ⟨p, process⟩ _
    have created : (Ipc.pipeCreate (Ipc.pipeCreate s q₀ buf₀) q₁ buf₁).Dormant t := dormant.pipeCreate.pipeCreate
    have connected : State.Dormant { (Ipc.pipeCreate (Ipc.pipeCreate s q₀ buf₀) q₁ buf₁) with
        kernel := s.kernel.setChannel c
          { pids := update (fun _ => 0) clientEnd process.pid, listeners := fun _ => 0, isClosed := fun _ => false }
        ends := update s.ends c (update (fun _ => q₁) clientEnd q₀) } t :=
      { created with kernel := dormant.kernel.setChannel fun _ => dormant.kernel.null.symm }
    refine .bind connected.enqueueIncomming.wakeServer fun s dormant => ?_
    refine .bind (handleAlloc dormant.kernel) ?_
    rintro ⟨k, h⟩ kernel
    exact .pure (dormant.withKernel kernel)

end

end State.Dormant
end Xos.Ipc
