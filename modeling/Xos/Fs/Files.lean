import Mathlib.Data.Set.Card
import Mathlib.Order.Interval.Set.Nat
import Xos.Fs.Fat32
import Xos.Lib.Pool

/-!
# Open files (`file.c`, `fat32.c`)

`file_open` takes a handle from one pool of 16 and a FAT32 file from another. `priv` in the handle says which file
belongs to it.
-/
namespace Xos.Fs

open Function List Set

def maxOpenFiles : Nat := 16

def fat32MaxOpenFiles : Nat := 16

/-- The fields of a `file` that are used. `priv` is the index of the FAT32 file it points to. -/
structure File where
  priv : Nat
  size : BitVec 32

/-- `file_pool` and `file_pool_used` of `fat32.c`, and of `file.c`. -/
structure FilePools where
  files : Nat → Fat32File
  filesUsed : Nat → Bool
  handles : Nat → File
  handlesUsed : Nat → Bool

def unusedSlot (count : Nat) (used : Nat → Bool) : Option Nat := (List.range count).find? fun i => !used i

/-- `file_pool_used[idx] = false`, for an index of the pool. -/
def freeSlot (count : Nat) (used : Nat → Bool) (idx : Nat) : Nat → Bool := if idx < count then update used idx false else used

def allocFile (p : FilePools) : Option (Nat × FilePools) :=
  (unusedSlot fat32MaxOpenFiles p.filesUsed).map fun i => (i, { p with filesUsed := update p.filesUsed i true })

def freeFile (p : FilePools) (file : Nat) : FilePools := { p with filesUsed := freeSlot fat32MaxOpenFiles p.filesUsed file }

def allocHandle (p : FilePools) : Option (Nat × FilePools) :=
  (unusedSlot maxOpenFiles p.handlesUsed).map fun i => (i, { p with handlesUsed := update p.handlesUsed i true })

def freeHandle (p : FilePools) (handle : Nat) : FilePools := { p with handlesUsed := freeSlot maxOpenFiles p.handlesUsed handle }

section Open

variable (v : Volume) (stack : Stack) (fuel : Nat)

/-- `fat32_open`, which returns 0 or -1. -/
def fat32Open (p : FilePools) (path : List Byte) (handle : Nat) : Outcome (Int × FilePools) :=
  match allocFile p with
  | none => pure (-1, p)
  | some (file, p) => do
    match ← openPath v stack fuel path with
    | none => pure (-1, freeFile p file)
    | some opened =>
      let p := { p with files := update p.files file opened }
      pure (0, { p with handles := update p.handles handle ⟨file, opened.size⟩ })

/-- `file_open`, which returns a handle or null. -/
def fileOpen (p : FilePools) (path : List Byte) : Outcome (Option Nat × FilePools) :=
  match allocHandle p with
  | none => pure (none, p)
  | some (handle, p) => do
    let (result, p) ← fat32Open v stack fuel p path handle
    if result ≠ 0 then pure (none, freeHandle p handle)
    else pure (some handle, p)

end Open

def fat32Close (p : FilePools) (handle : Nat) : FilePools := freeFile p (p.handles handle).priv

def fileClose (p : FilePools) : Option Nat → FilePools
  | none => p
  | some handle => freeHandle (fat32Close p handle) handle

section Calls

variable {count : Nat} {used : Nat → Bool} {i : Nat}

theorem unusedSlot_some (found : unusedSlot count used = some i) : i < count ∧ used i = false := by
  have inside := mem_of_find?_eq_some found
  have unused := find?_some found
  exact ⟨mem_range.mp inside, by simpa using unused⟩

theorem unusedSlot_none (full : unusedSlot count used = none) (inside : i < count) : used i = true := by
  have all := find?_eq_none.mp full i (mem_range.mpr inside)
  simpa using all

theorem freeSlot_alloc (inside : i < count) (unused : used i = false) : freeSlot count (update used i true) i = used := by
  rw [freeSlot, if_pos inside, update_idem, ← unused, update_eq_self]

def FilePools.hand (p : FilePools) (handle file : Nat) (opened : Fat32File) : FilePools where
  files := update p.files file opened
  filesUsed := update p.filesUsed file true
  handles := update p.handles handle ⟨file, opened.size⟩
  handlesUsed := update p.handlesUsed handle true

/-- What `file_open` does: with a free slot in both pools it opens the path, and without a result it leaves the pools as they were. -/
theorem fileOpen_cases {v : Volume} {stack : Stack} {fuel : Nat} {p p' : FilePools} {path : List Byte} {res : Option Nat}
    (ret : fileOpen v stack fuel p path = .ok (res, p')) :
    (∃ handle file opened, handle < maxOpenFiles ∧ p.handlesUsed handle = false ∧ file < fat32MaxOpenFiles ∧ p.filesUsed file = false ∧
      res = some handle ∧ p' = p.hand handle file opened) ∨
    res = none ∧ p' = p ∧ (openPath v stack fuel path = .ok none ∨ (∀ handle < maxOpenFiles, p.handlesUsed handle = true) ∨
      ∀ file < fat32MaxOpenFiles, p.filesUsed file = true) := by
  rw [fileOpen, allocHandle] at ret
  cases slot : unusedSlot maxOpenFiles p.handlesUsed with
  | none =>
    rw [slot] at ret
    cases ret
    exact .inr ⟨rfl, rfl, .inr (.inl fun handle inside => unusedSlot_none slot inside)⟩
  | some handle =>
    obtain ⟨inside, unused⟩ := unusedSlot_some slot
    have back := freeSlot_alloc inside unused
    rw [slot, Option.map_some] at ret
    dsimp only at ret
    rw [fat32Open, allocFile] at ret
    cases slot' : unusedSlot fat32MaxOpenFiles p.filesUsed with
    | none =>
      rw [slot'] at ret
      cases ret
      refine .inr ⟨rfl, ?_, .inr (.inr fun file inside => unusedSlot_none slot' inside)⟩
      rw [freeHandle, back]
    | some file =>
      obtain ⟨inside', unused'⟩ := unusedSlot_some slot'
      have back' := freeSlot_alloc inside' unused'
      rw [slot', Option.map_some] at ret
      cases opened : openPath v stack fuel path with
      | error stop =>
        rw [opened] at ret
        cases ret
      | ok found =>
        rw [opened] at ret
        cases found with
        | none =>
          cases ret
          refine .inr ⟨rfl, ?_, .inl rfl⟩
          simp only [freeHandle, freeFile, back, back']
        | some found =>
          cases ret
          exact .inl ⟨handle, file, found, inside, unused, inside', unused', rfl, rfl⟩

end Calls

/-- The pools, and the handles that `file_open` has returned and that have not been closed since. -/
structure OpenFiles where
  pools : FilePools
  opened : Set Nat

inductive FileStep (s : OpenFiles) : OpenFiles → Prop
  | opened {v : Volume} {stack : Stack} {fuel handle : Nat} {path : List Byte} {p : FilePools}
      (returned : fileOpen v stack fuel s.pools path = .ok (some handle, p)) : FileStep s ⟨p, insert handle s.opened⟩
  | failed {v : Volume} {stack : Stack} {fuel : Nat} {path : List Byte} {p : FilePools}
      (returned : fileOpen v stack fuel s.pools path = .ok (none, p)) : FileStep s ⟨p, s.opened⟩
  | closed {handle : Nat} (isOpen : handle ∈ s.opened) : FileStep s ⟨fileClose s.pools (some handle), s.opened \ {handle}⟩
  | closedNull : FileStep s ⟨fileClose s.pools none, s.opened⟩

def bootPools : FilePools := ⟨fun _ => ⟨0, 0, false⟩, fun _ => false, fun _ => ⟨0, 0⟩, fun _ => false⟩

def FilePools.usedHandles (p : FilePools) : Set Nat := {handle | p.handlesUsed handle = true}

def FilePools.usedFiles (p : FilePools) : Set Nat := {file | p.filesUsed file = true}

structure InStep (s : OpenFiles) : Prop where
  opened : s.pools.usedHandles = s.opened
  handles : s.pools.usedHandles ⊆ Set.Iio maxOpenFiles
  files : s.pools.usedFiles ⊆ Set.Iio fat32MaxOpenFiles
  paired : Set.BijOn (fun handle => (s.pools.handles handle).priv) s.pools.usedHandles s.pools.usedFiles

section Steps

variable {s : OpenFiles} {p : FilePools} {handle file : Nat} {opened : Fat32File}

theorem usedHandles_hand : (p.hand handle file opened).usedHandles = insert handle p.usedHandles := by
  ext i
  by_cases same : i = handle <;> simp [FilePools.usedHandles, FilePools.hand, same]

theorem usedFiles_hand : (p.hand handle file opened).usedFiles = insert file p.usedFiles := by
  ext i
  by_cases same : i = file <;> simp [FilePools.usedFiles, FilePools.hand, same]

theorem InStep.hand (step : InStep s) (inside : handle < maxOpenFiles) (unused : s.pools.handlesUsed handle = false)
    (inside' : file < fat32MaxOpenFiles) (unused' : s.pools.filesUsed file = false) :
    InStep ⟨s.pools.hand handle file opened, insert handle s.opened⟩ where
  opened := by rw [usedHandles_hand, step.opened]
  handles := by
    rw [usedHandles_hand]
    exact insert_subset inside step.handles
  files := by
    rw [usedFiles_hand]
    exact insert_subset inside' step.files
  paired := by
    have fresh : handle ∉ s.pools.usedHandles := by simp [FilePools.usedHandles, unused]
    have fresh' : file ∉ s.pools.usedFiles := by simp [FilePools.usedFiles, unused']
    have priv : ((s.pools.hand handle file opened).handles handle).priv = file := by simp [FilePools.hand]
    -- the other handles keep their files
    have others : Set.EqOn (fun i => (s.pools.handles i).priv) (fun i => ((s.pools.hand handle file opened).handles i).priv)
        s.pools.usedHandles := by
      intro i used
      have other : i ≠ handle := fun same => fresh (same ▸ used)
      simp [FilePools.hand, other]
    have paired := (step.paired.congr others).insert (a := handle) (by simpa only [priv] using fresh')
    rw [priv] at paired
    rwa [usedHandles_hand, usedFiles_hand]

theorem usedHandles_close (inside : handle < maxOpenFiles) : (fileClose p (some handle)).usedHandles = p.usedHandles \ {handle} := by
  ext i
  by_cases same : i = handle <;> simp [FilePools.usedHandles, fileClose, freeHandle, fat32Close, freeFile, freeSlot, inside, same]

theorem usedFiles_close (inside : (p.handles handle).priv < fat32MaxOpenFiles) :
    (fileClose p (some handle)).usedFiles = p.usedFiles \ {(p.handles handle).priv} := by
  ext i
  by_cases same : i = (p.handles handle).priv <;>
    simp [FilePools.usedFiles, fileClose, freeHandle, fat32Close, freeFile, freeSlot, inside, same]

theorem InStep.close (step : InStep s) (isOpen : handle ∈ s.opened) :
    InStep ⟨fileClose s.pools (some handle), s.opened \ {handle}⟩ := by
  have used : handle ∈ s.pools.usedHandles := step.opened ▸ isOpen
  have handles := usedHandles_close (p := s.pools) (step.handles used)
  have files := usedFiles_close (p := s.pools) (step.files (step.paired.mapsTo used))
  constructor
  · rw [handles, step.opened]
  · rw [handles]
    exact sdiff_subset.trans step.handles
  · rw [files]
    exact sdiff_subset.trans step.files
  · rw [handles, files]
    exact step.paired.sdiff_singleton used

theorem InStep.step {s' : OpenFiles} (inStep : InStep s) (taken : FileStep s s') : InStep s' := by
  cases taken with
  | opened ret =>
    rcases fileOpen_cases ret with ⟨handle, file, opened, inside, unused, inside', unused', same, rfl⟩ | ⟨none, _⟩
    · cases same
      exact inStep.hand inside unused inside' unused'
    · cases none
  | failed ret =>
    rcases fileOpen_cases ret with ⟨_, _, _, _, _, _, _, same, _⟩ | ⟨_, rfl, _⟩
    · cases same
    · exact inStep
  | closed isOpen => exact inStep.close isOpen
  | closedNull => exact inStep

theorem inStep_boot : InStep ⟨bootPools, ∅⟩ := by
  have handles : bootPools.usedHandles = ∅ := by simp [FilePools.usedHandles, bootPools]
  have files : bootPools.usedFiles = ∅ := by simp [FilePools.usedFiles, bootPools]
  constructor
  · exact handles
  · simp [handles]
  · simp [files]
  · rw [handles, files]
    exact bijOn_empty _

theorem InStep.full (step : InStep s) (full : (∀ handle < maxOpenFiles, s.pools.handlesUsed handle = true) ∨
    ∀ file < fat32MaxOpenFiles, s.pools.filesUsed file = true) : s.opened.ncard = 16 := by
  rw [← step.opened]
  rcases full with handles | files
  · have all : s.pools.usedHandles = Set.Iio maxOpenFiles := step.handles.antisymm fun handle inside => handles handle inside
    rw [all, ncard_Iio_nat, maxOpenFiles]
  · have all : s.pools.usedFiles = Set.Iio fat32MaxOpenFiles := step.files.antisymm fun file inside => files file inside
    rw [step.paired.ncard_eq, all, ncard_Iio_nat, fat32MaxOpenFiles]

end Steps

/-- After any calls, the handles in use are those that are open, and belong one to one to the files in use. A `file_open` that fails
leaves the pools as they were, and it fails because the path cannot be opened or because 16 handles are open. -/
theorem file_pools_in_step {s : OpenFiles} (run : Relation.ReflTransGen FileStep ⟨bootPools, ∅⟩ s) :
    Set.BijOn (fun handle => (s.pools.handles handle).priv) s.pools.usedHandles s.pools.usedFiles ∧ s.pools.usedHandles = s.opened ∧
      ∀ v stack fuel path p, fileOpen v stack fuel s.pools path = .ok (none, p) →
        p = s.pools ∧ (openPath v stack fuel path = .ok none ∨ s.opened.ncard = 16) := by
  have inStep := Lib.invariant_of_run InStep (fun _ _ inStep taken => inStep.step taken) run inStep_boot
  refine ⟨inStep.paired, inStep.opened, fun v stack fuel path p returned => ?_⟩
  rcases fileOpen_cases returned with ⟨_, _, _, _, _, _, _, same, _⟩ | ⟨_, same, absent | full⟩
  · cases same
  · exact ⟨same, .inl absent⟩
  · exact ⟨same, .inr (inStep.full full)⟩

def deadVolume : Volume := ⟨⟨1, 1, 1, 1, 2⟩, 0, fun _ => none⟩

/-- When the root directory has been opened, the first handle belongs to the first file. -/
theorem root_opened : Set.BijOn (fun handle => ((bootPools.hand 0 0 ⟨2, 0, true⟩).handles handle).priv)
      (bootPools.hand 0 0 ⟨2, 0, true⟩).usedHandles (bootPools.hand 0 0 ⟨2, 0, true⟩).usedFiles ∧
    (bootPools.hand 0 0 ⟨2, 0, true⟩).usedHandles = insert 0 ∅ := by
  have returned : fileOpen deadVolume zeroStack 0 bootPools [slash] =
    .ok (some 0, bootPools.hand 0 0 ⟨2, 0, true⟩) := rfl
  have inStep := file_pools_in_step (.single (.opened returned))
  exact ⟨inStep.1, inStep.2.1⟩

end Xos.Fs
