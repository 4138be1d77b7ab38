import Xos.Ipc.Pipe

/-!
# Kinds of handles

The calls on channels do not look at the kind of a handle. A pipe is then taken for a channel, whose fields are bytes of
its buffer.
-/
namespace Xos.Ipc

open Lib Memory Scheduler Syscall Word Outcome

variable {s : State} {p arg : Nat} {process : Process}

def kindAt (process : Process) (h : Int) : HandleType :=
  if h < 0 ∨ maxHandles ≤ h then .none else (process.handles h.toNat).type

theorem handleGet_eq_none {h : Int} : handleGet process h = none ↔ kindAt process h = .none := by
  rw [handleGet, kindAt]
  split
  · simp
  · split
    next unused => simp [unused]
    next used => simp [used]

structure State.Refuses (s : State) (arg : Nat) : Prop where
  send : ∀ data len, channelSend s (toInt arg) data len = .ok s
  recv : ∀ len, channelRecv s (toInt arg) len = .ok (s, .bytes [])
  setListener : channelSetListener s (toInt arg) s.kernel.currentTask = .ok (s, false)
  close : sysIpcChannelClose s arg = .ok s
  pid : sysIpcPid s arg = .ok none
  allocShared : ∀ size out, sysAllocShared s size arg out = .ok (s, 0)

section

variable (current : s.current = .ok (p, process))
include current

theorem owner_of_current : ∃ task, s.kernel.task s.kernel.currentTask = .ok task ∧ task.owner = p ∧
    s.kernel.process p = .ok process := by
  obtain ⟨p', process', running, record, same⟩ := of_bind₂ current
  obtain ⟨rfl, rfl⟩ := ok_inj same
  obtain ⟨task, found, running⟩ := of_bind running
  exact ⟨task, found, Except.ok.inj running, record⟩

theorem allocShared_refused (none : handleGet process (toInt arg) = none)
    (size out : Nat) : sysAllocShared s size arg out = .ok (s, 0) := by
  have unused : Syscall.sysAllocShared s.asChannels size arg out = .ok (s.asChannels, 0) := by
    rw [Syscall.sysAllocShared, allocShared]
    split
    · rfl
    · obtain ⟨task, found, rfl, record⟩ := owner_of_current current
      have here : processCurrent s.asChannels = .ok task.owner := by
        rw [processCurrent, show s.asChannels.task s.asChannels.currentTask = .ok task from found, ok_bind]
        rfl
      have there : s.asChannels.process task.owner = .ok process := record
      rw [here, ok_bind, there, ok_bind, sharedClient, none]
      rfl
  rw [sysAllocShared, unused]
  rfl

theorem refuses_unused (unused : kindAt process (toInt arg) = .none) : s.Refuses arg := by
  have none := handleGet_eq_none.mpr unused
  refine ⟨fun data len => ?_, fun len => ?_, ?_, ?_, ?_, allocShared_refused current none⟩
  · simp only [channelSend, current, ok_bind, none, pure_eq_ok]
  · simp only [channelRecv, current, ok_bind, none, pure_eq_ok]
  · obtain ⟨task, found, rfl, record⟩ := owner_of_current current
    rw [channelSetListener, found, ok_bind, record, ok_bind, none]
    rfl
  · simp only [sysIpcChannelClose, current, ok_bind, none, pure_eq_ok]
  · simp only [sysIpcPid, current, ok_bind, none, pure_eq_ok]

end

theorem sysIpcPid_pipe {entry : HandleEntry} {pipe : Pipe} (current : s.current = .ok (p, process))
    (handle : handleGet process (toInt arg) = some entry) (noChannel : s.kernel.channels entry.ptr = none)
    (found : s.pipes entry.ptr = some pipe) (forged : pipe.buf.load 0 4 = process.pid) :
    sysIpcPid s arg = .ok (some (pipe.buf.load 4 4)) := by
  have read : s.channel entry.ptr = .ok pipe.asChannel := by
    rw [State.channel, noChannel, found]
    rfl
  have client : process.pid = pipe.asChannel.pids clientEnd := forged.symm
  simp only [sysIpcPid, current, ok_bind, handle, read, if_pos client, pure_eq_ok]
  rfl

def forgedPipe (pid : Nat) : Pipe := ⟨Bytes.store (fun _ => 0) 0 4 pid, 0, 0, 0, 1, 0⟩

def holder (process : Process) (q : Nat) (pipe : Pipe) : State :=
  let kernel := (emptyKernel.setProcess 0x10 process).setTask 0x20 (plainTask 1 0x10)
  (emptyState.withKernel { kernel with currentTask := 0x20 }).setPipe q pipe

/-- The calls on channels keep to handles of channels just when the handle is one, or is not in use. The
numbers of processes have 32 bits. -/
theorem channel_handles_only_iff (process : Process) (arg : Nat) (number : process.pid < 2 ^ 32) :
    (∀ (s : State) (p : Nat), s.current = .ok (p, process) → kindAt process (toInt arg) ≠ .channel → s.Refuses arg) ↔
      kindAt process (toInt arg) = .none ∨ kindAt process (toInt arg) = .channel := by
  constructor
  · intro refuses
    by_contra other
    simp only [not_or] at other
    obtain ⟨entry, handle⟩ := Option.ne_none_iff_exists'.mp fun none => other.1 (handleGet_eq_none.mp none)
    have current : (holder process entry.ptr (forgedPipe process.pid)).current = .ok (0x10, process) := rfl
    have found : (holder process entry.ptr (forgedPipe process.pid)).pipes entry.ptr = some (forgedPipe process.pid) :=
      Function.update_self ..
    have forged : (forgedPipe process.pid).buf.load 0 4 = process.pid := by
      rw [forgedPipe, Bytes.load_store_same]
      exact Nat.mod_eq_of_lt number
    have answered := sysIpcPid_pipe current handle rfl found forged
    rw [(refuses _ _ current other.2).pid] at answered
    cases answered
  · rintro (unused | channel) s p current other
    · exact refuses_unused current unused
    · exact absurd channel other

/-- The pipe of process 1 when it has written its own number and a 7 into it. -/
def written : State :=
  (pipeCreate pipeOwner 0x100 fun _ => 0).setPipe 0x100
    (Pipe.store (fun i => if i = 0 then 1 else if i = 4 then 7 else 0) (u32 8) 0 ⟨fun _ => 0, 0, 0, 0, 1, 0⟩)

theorem written_by_process : sysWriteFd (pipeCreate pipeOwner 0x100 fun _ => 0) 1
    (fun i => if i = 0 then 1 else if i = 4 then 7 else 0) 8 = .ok (written, some 8) := by
  have handle : pipeHandle (pipeCreate pipeOwner 0x100 fun _ => 0) .pipeWrite 1 = .ok (some 0x100) := by decide +kernel
  exact sysWriteFd_eq handle (pipeWrite_eq (pipeCreate_pipe ..) rfl _ _)

/-- Process 1 writes its number and a 7 into a pipe. Asked for the peer of the pipe, the kernel answers
with process 7, and closing the pipe as a channel writes a byte into its buffer. -/
theorem pipe_taken_for_channel : ∃ s p process, sysWriteFd (pipeCreate pipeOwner 0x100 fun _ => 0) 1
      (fun i => if i = 0 then 1 else if i = 4 then 7 else 0) 8 = .ok (s, some 8) ∧
    s.current = .ok (p, process) ∧ kindAt process (toInt 0) = .pipeRead ∧ sysIpcPid s 0 = .ok (some 7) ∧
    (sysIpcChannelClose s 0 >>= fun closed => closed.pipe 0x100 >>= fun pipe => pure (pipe.buf 40)) = .ok 1 ∧ ¬s.Refuses 0 := by
  have answered : sysIpcPid written 0 = .ok (some 7) := by decide +kernel
  have closed : (sysIpcChannelClose written 0 >>= fun closed => closed.pipe 0x100 >>= fun pipe => pure (pipe.buf 40)) = .ok 1 := by
    decide +kernel
  refine ⟨written, 0x10, _, written_by_process, rfl, by decide +kernel, answered, closed, fun refuses => ?_⟩
  rw [refuses.pid] at answered
  cases answered

/-- Process 1 has no handle 5. -/
theorem unused_handle_refused : ∃ process, pipeOwner.current = .ok (0x10, process) ∧ kindAt process (toInt 5) = .none ∧
    pipeOwner.Refuses 5 := by
  obtain ⟨process, current, unused, number⟩ : ∃ process, pipeOwner.current = .ok (0x10, process) ∧
      kindAt process (toInt 5) = .none ∧ process.pid < 2 ^ 32 := ⟨_, rfl, by decide +kernel, by decide⟩
  have other : kindAt process (toInt 5) ≠ .channel := by simp [unused]
  exact ⟨process, current, unused, (channel_handles_only_iff process 5 number).mpr (.inl unused) pipeOwner 0x10 current other⟩

end Xos.Ipc
