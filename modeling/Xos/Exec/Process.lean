import Xos.Exec.Segments
import Xos.Fs.Files
import Xos.Scheduler.Creation

/-!
# Starting a program (`process_exec`)

The whole of `process_exec`. A call that fails does not undo what was done before it; without a program in the file the
new space is to be destroyed, which panics.
-/
namespace Xos.Exec

open Memory Word Lib Outcome
open Scheduler (Kernel userStackTop userStackPages)
open Fs (Volume FilePools fileOpen fileClose)

structure UserStart where
  startArgc : Nat
  startArgv : Nat
  userRsp : Nat

/-- The kernel with its page tables, the open files, physical memory, and where tasks start in user mode. -/
structure System where
  kernel : Kernel
  files : FilePools
  bytes : Bytes
  starts : Nat → UserStart

/-- A disk, with what the buffers of the functions of `fat32.c` hold at first and the rounds after which their loops are cut off. -/
structure Disk where
  volume : Volume
  stack : Fs.Stack
  sector : Fs.Sector
  tmp : Bytes
  buf : Bytes
  fuel : Nat

/-- What `elf_load` sees of an open file. -/
def Disk.view (d : Disk) (files : FilePools) (handle : Nat) : FileView where
  size := (files.handles handle).size.toNat
  read n := (Fs.read d.volume d.sector d.tmp d.fuel (files.files (files.handles handle).priv) d.buf (BitVec.ofNat 32 n)).map Prod.snd

def vmmDestroyAddressSpace {α : Type} (_space : AddressSpace) : Outcome α :=
  throw (.panic "vmm_destroy_address_space is not implemented!")

def maxExecArgc : Nat := 64

/-- A string as it is in memory: its bytes before the first null byte, and the null byte. -/
def cString (s : List Byte) : List Byte := s.takeWhile (· ≠ 0) ++ [0]

/-- `argc` after the checks, for a null pointer or an array of strings. -/
def argumentCount (argc : Int) : Option (Nat → List Byte) → Nat
  | none => 0
  | some _ => if argc ≤ 0 then 0 else if argc > maxExecArgc then maxExecArgc else argc.toNat

/-- `push_to_user_stack`. Only the address of the first byte is translated. -/
def pushToUserStack (v : Vmm) (space : AddressSpace) (usp : Nat) (src : List Byte) (bytes : Bytes) : Nat × Bytes :=
  let usp := sub64 usp (u64 src.length)
  let usp := usp &&& 0xFFFFFFFFFFFFFFF8
  (usp, bytes.copy (vmmVirtToPhys v space usp) src)

/-- The variables of the loop over the arguments: the stack pointer, the part of `argv_user` that has been filled, and memory. -/
structure Pushed where
  usp : Nat
  argvUser : List Nat
  bytes : Bytes

def pushStrings (v : Vmm) (space : AddressSpace) (argv : Nat → List Byte) : Nat → Pushed → Pushed
  | 0, s => s
  | i + 1, s =>
    let pushed := pushToUserStack v space s.usp (cString (argv i)) s.bytes
    pushStrings v space argv i ⟨pushed.1, pushed.1 :: s.argvUser, pushed.2⟩

/-- The strings and, below them, `argv_user` with a null pointer at its end. The address of the array is returned. -/
def pushArguments (v : Vmm) (space : AddressSpace) (argc : Nat) (argv : Nat → List Byte) (usp : Nat) (bytes : Bytes) : Nat × Bytes :=
  let pushed := pushStrings v space argv argc ⟨usp, [0], bytes⟩
  let usp := sub64 pushed.usp ((argc + 1) * 8) &&& 0xFFFFFFFFFFFFFFF0
  (usp, pushed.bytes.copy (vmmVirtToPhys v space usp) (pushed.argvUser.flatMap (Bytes.littleEndian 8)))

/-- `t->user_rsp` as `task_create_user_from_space` leaves it for a main task. -/
def initialUserRsp : Nat := sub64 userStackTop 8

/-- `process_exec`, on the blocks `t` and `p` of the heap. The arguments are pushed when the task has been made and before the process is
created, which touches neither the tables nor user memory. -/
def processExec (d : Disk) (s : System) (path : List Byte) (t p : Nat) (stdIn stdOut argc : Int) (argv : Option (Nat → List Byte)) :
    Outcome (System × Nat) := do
  let (handle, files) ← fileOpen d.volume d.stack d.fuel s.files path
  match handle with
  | none => pure ({ s with files := files }, 0)
  | some handle =>
    let (vmm, space) ← vmmCreateAddressSpaceOn s.kernel.vmm
    let (m, entry) ← elfLoad ⟨vmm, s.bytes⟩ (d.view files handle) space
    -- the handle is not closed here
    if entry = 0 then vmmDestroyAddressSpace space
    else
      let entered ← Scheduler.processExec { s.kernel with vmm := m.vmm } t p space stdIn stdOut
      let argc := argumentCount argc argv
      let pushed := pushArguments entered.1.vmm space argc (argv.getD fun _ => []) initialUserRsp m.bytes
      pure ({ kernel := entered.1
              files := fileClose files (some handle)
              bytes := pushed.2
              starts := Function.update s.starts t ⟨argc, pushed.1, sub64 pushed.1 8⟩ }, entered.2)

structure Loads (d : Disk) (s : System) (path : List Byte) (handle : Nat) (files : FilePools)
    (space : AddressSpace) (m : Ram) : Prop where
  opened : fileOpen d.volume d.stack d.fuel s.files path = .ok (some handle, files)
  entered : ∃ vmm entry, vmmCreateAddressSpaceOn s.kernel.vmm = .ok (vmm, space) ∧
    elfLoad ⟨vmm, s.bytes⟩ (d.view files handle) space = .ok (m, entry) ∧ entry ≠ 0

section Exec

variable {d : Disk} {s s' : System} {path : List Byte} {t p : Nat} {stdIn stdOut argc : Int}
  {argv : Option (Nat → List Byte)} {pid : Nat}

/-- What a call that returns has done: nothing, when the file could not be opened, or everything. -/
theorem processExec_cases (ret : processExec d s path t p stdIn stdOut argc argv = .ok (s', pid)) :
    (∃ files, fileOpen d.volume d.stack d.fuel s.files path = .ok (none, files) ∧ s' = { s with files := files } ∧ pid = 0) ∨
    ∃ handle files space m kernel, Loads d s path handle files space m ∧
      Scheduler.processExec { s.kernel with vmm := m.vmm } t p space stdIn stdOut = .ok (kernel, pid) ∧
      s' = { kernel := kernel
             files := fileClose files (some handle)
             bytes := (pushArguments kernel.vmm space (argumentCount argc argv) (argv.getD fun _ => []) initialUserRsp m.bytes).2
             starts := Function.update s.starts t
              ⟨argumentCount argc argv,
                (pushArguments kernel.vmm space (argumentCount argc argv) (argv.getD fun _ => []) initialUserRsp m.bytes).1,
                sub64 (pushArguments kernel.vmm space (argumentCount argc argv) (argv.getD fun _ => []) initialUserRsp m.bytes).1 8⟩ } := by
  unfold processExec at ret
  obtain ⟨⟨handle, files⟩, opened, ret⟩ := of_bind ret
  cases handle with
  | none =>
    cases ret
    exact .inl ⟨files, opened, rfl, rfl⟩
  | some handle =>
    dsimp only at ret
    obtain ⟨⟨vmm, space⟩, created, ret⟩ := of_bind ret
    obtain ⟨⟨m, entry⟩, loaded, ret⟩ := of_bind ret
    dsimp only at ret
    split at ret
    · cases ret
    next program =>
      obtain ⟨⟨kernel, pid'⟩, entered, ret⟩ := of_bind ret
      cases ret
      exact .inr ⟨handle, files, space, m, kernel, ⟨opened, vmm, entry, created, loaded, program⟩, entered, rfl⟩

end Exec

/-- Where no program can be loaded from a path, `process_exec` returns 0 and leaves everything as it was exactly when the file could not be
opened. A file that was opened and holds no program always ends in a panic. -/
theorem failed_exec_returns_iff (d : Disk) (s : System) (path : List Byte) (t p : Nat) (stdIn stdOut argc : Int)
    (argv : Option (Nat → List Byte)) (unloadable : ∀ handle files space m, ¬Loads d s path handle files space m) :
    processExec d s path t p stdIn stdOut argc argv = .ok (s, 0) ↔
      ∃ files, fileOpen d.volume d.stack d.fuel s.files path = .ok (none, files) := by
  constructor
  · intro returned
    rcases processExec_cases returned with ⟨files, opened, -⟩ | ⟨handle, files, space, m, kernel, loads, -⟩
    · exact ⟨files, opened⟩
    · exact absurd loads (unloadable handle files space m)
  · rintro ⟨files, opened⟩
    rcases Fs.fileOpen_cases opened with ⟨_, _, _, _, _, _, _, some, _⟩ | ⟨-, same, -⟩
    · cases some
    · rw [processExec, opened, same]
      rfl

def emptySystem : System := ⟨Scheduler.emptyKernel, Fs.bootPools, fun _ => 0, fun _ => ⟨0, 0, 0⟩⟩

def deadDisk : Disk := ⟨Fs.deadVolume, Fs.zeroStack, fun _ => 0, fun _ => 0, fun _ => 0, 0⟩

/-- The root directory is opened as a file without bytes. It is no program, and the attempt to start it panics. -/
theorem directory_exec_panics : (∀ handle files space m, ¬Loads deadDisk emptySystem [Fs.slash] handle files space m) ∧
    processExec deadDisk emptySystem [Fs.slash] 0x10 0x20 (-1) (-1) 0 none =
      .error (.panic "vmm_destroy_address_space is not implemented!") := by
  have root : fileOpen deadDisk.volume deadDisk.stack deadDisk.fuel emptySystem.files [Fs.slash] =
    .ok (some 0, Fs.bootPools.hand 0 0 ⟨2, 0, true⟩) := rfl
  refine ⟨fun handle files space m loads => ?_, ?_⟩
  · obtain ⟨opened, vmm, entry, -, loaded, program⟩ := loads
    rw [root] at opened
    cases opened
    cases loaded
    exact program rfl
  · have stopped : ((processExec deadDisk emptySystem [Fs.slash] 0x10 0x20 (-1) (-1) 0 none).map fun _ => ()) =
      .error (.panic "vmm_destroy_address_space is not implemented!") := by decide +kernel
    exact map_eq_error.mp stopped

def crowdedSystem : System := { emptySystem with files := { Fs.bootPools with handlesUsed := fun _ => true } }

/-- Without a free handle, nothing happens. -/
theorem crowded_exec_returns : processExec deadDisk crowdedSystem [Fs.slash] 0x10 0x20 (-1) (-1) 0 none = .ok (crowdedSystem, 0) := by
  have refused : fileOpen deadDisk.volume deadDisk.stack deadDisk.fuel crowdedSystem.files [Fs.slash] = .ok (none, crowdedSystem.files) := rfl
  refine (failed_exec_returns_iff deadDisk crowdedSystem [Fs.slash] 0x10 0x20 (-1) (-1) 0 none fun handle files space m loads => ?_).mpr
    ⟨_, refused⟩
  have opened := loads.opened
  rw [refused] at opened
  cases opened

end Xos.Exec
