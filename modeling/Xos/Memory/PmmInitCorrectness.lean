import Xos.Memory.PmmInitSpec

/-!
# Which pages `pmm_init` leaves free

The exact set of clear bits after `pmm_init`, for a bitmap whose size the `int` parameter of
`pmm_reserve_region` can hold.
-/
namespace Xos.Memory

open Word Lib

/-- `pmm_init` returns, without an access outside the bitmap, and the clear bits are those of the
conventional pages other than page 0, the pages of the bitmap and the pages of the kernel image. -/
def ClearsExactly (map : List EfiMemoryDescriptor) (kernel : KernelImage) : Prop :=
  ∃ s, pmmInit map kernel = .ok s ∧ s.pageCount = maxPage map + 1 ∧
    ∀ p, p < s.pageCount → (s.bit p = false ↔ Conventional map p ∧ p ≠ 0 ∧
      ¬InRegion s.bitmapAddr s.bitmapSize p ∧
      ¬InRegion kernel.physStart (kernel.physEnd - kernel.physStart) p)

variable {map : List EfiMemoryDescriptor} {addr : Nat} {kernel : KernelImage}

theorem findBitmap_eq_some {size : Nat} (found : findBitmap size map = some addr) :
    ∃ desc ∈ map, desc.type = conventionalType ∧ addr = desc.physicalStart ∧
      size ≤ desc.numberOfPages * 4096 := by
  obtain ⟨desc, first, rfl⟩ := Option.map_eq_some_iff.mp found
  have accepted := List.find?_some first
  simp only [Bool.decide_and, Bool.and_eq_true, decide_eq_true_eq] at accepted
  have physical := desc.physical
  rw [u64_of_lt (by omega)] at accepted
  exact ⟨desc, List.mem_of_find?_eq_some first, accepted.1, rfl, accepted.2.2⟩

theorem bitmap_managed {size : Nat} {p : Nat} (aligned : ∀ desc ∈ map, desc.physicalStart % 4096 = 0) (pos : 0 < size)
    (found : findBitmap size map = some addr) (region : InRegion addr size p) : p ≤ maxPage map := by
  obtain ⟨desc, mem, type, rfl, room⟩ := findBitmap_eq_some found
  have start := aligned desc mem
  have bound := descriptor_le_maxPage mem type (by omega)
  obtain ⟨-, below⟩ := region
  omega

theorem bitmap_region (fitsInt : (maxPage map + 1 + 7) / 8 < 2 ^ 31)
    (found : findBitmap ((maxPage map + 1 + 7) / 8) map = some addr) (p : Nat) :
      p ∈ regionVisited addr (i32 ((maxPage map + 1 + 7) / 8)) ↔
      InRegion addr ((maxPage map + 1 + 7) / 8) p := by
  obtain ⟨desc, -, -, rfl, room⟩ := findBitmap_eq_some found
  have physical := desc.physical
  rw [i32_of_lt fitsInt]
  exact regionVisited_iff fitsInt (by omega) p

theorem kernel_region (bound : kernel.physEnd ≤ 2 ^ 52) (p : Nat) :
    p ∈ regionVisited kernel.physStart (i32 (sub64 kernel.physEnd kernel.physStart)) ↔
      InRegion kernel.physStart (kernel.physEnd - kernel.physStart) p := by
  have ordered := kernel.ordered
  rw [sub64_of_le ordered, i32_of_lt kernel.small]
  exact regionVisited_iff kernel.small (by omega) p

theorem mem_rereserved_iff (fitsInt : (maxPage map + 1 + 7) / 8 < 2 ^ 31) (image : kernel.physEnd ≤ (maxPage map + 1) * 4096)
    (found : findBitmap ((maxPage map + 1 + 7) / 8) map = some addr) (p : Nat) :
      p ∈ Rereserved addr ((maxPage map + 1 + 7) / 8) kernel ↔
      (p = 0 ∨ InRegion addr ((maxPage map + 1 + 7) / 8) p) ∨
        InRegion kernel.physStart (kernel.physEnd - kernel.physStart) p := by
  rw [Rereserved, Set.mem_union, Set.mem_union, Set.mem_singleton_iff, bitmap_region fitsInt found,
    kernel_region (by omega)]

/-- With room for the bitmap `pmm_init` returns: every page it reserves is in the bitmap. -/
theorem pmmInit_returns (aligned : ∀ desc ∈ map, desc.physicalStart % 4096 = 0)
    (fitsInt : (maxPage map + 1 + 7) / 8 < 2 ^ 31) (image : kernel.physEnd ≤ (maxPage map + 1) * 4096)
    (found : findBitmap ((maxPage map + 1 + 7) / 8) map = some addr) : ∃ s, pmmInit map kernel =
      .ok s ∧ Initialized map kernel s := by
  rcases pmmInit_cases map kernel with ⟨none, -⟩ | ⟨other, index, again, -, p, mem, outside⟩ | ret
  · rw [none] at found
    cases found
  · refine absurd ?_ outside
    rw [mem_rereserved_iff fitsInt image again] at mem
    rcases mem with (rfl | region) | region
    · omega
    · have managed := bitmap_managed aligned (by omega) again region
      omega
    · have ordered := kernel.ordered
      obtain ⟨-, below⟩ := region
      omega
  · exact ret

theorem Initialized.clear_iff {s : Pmm} (initialized : Initialized map kernel s) (fitsInt : (maxPage map + 1 + 7) / 8 < 2 ^ 31)
    (image : kernel.physEnd ≤ (maxPage map + 1) * 4096) {p : Nat} (managed : p < s.pageCount) :
    s.bit p = false ↔ Conventional map p ∧ p ≠ 0 ∧ ¬InRegion s.bitmapAddr s.bitmapSize p ∧
      ¬InRegion kernel.physStart (kernel.physEnd - kernel.physStart) p := by
  have size : s.bitmapSize = (maxPage map + 1 + 7) / 8 := by
    rw [initialized.bitmapSize, initialized.pageCount]
  have found := initialized.bitmapFound
  have bit := initialized.bit p
  have inside : p / 8 < s.bitmapSize := by
    rw [initialized.bitmapSize]
    omega
  rw [size] at found bit inside
  rw [mem_rereserved_iff fitsInt image found] at bit
  rw [size, ← Bool.not_eq_true, bit]
  tauto

/-- After `pmm_init` the clear bits are exactly those of the conventional pages outside page 0,
the bitmap and the kernel image. -/
theorem pmmInit_clearsExactly (map : List EfiMemoryDescriptor) (kernel : KernelImage)
    (aligned : ∀ desc ∈ map, desc.physicalStart % 4096 = 0)
    (fitsInt : (maxPage map + 1 + 7) / 8 < 2 ^ 31)
    (image : kernel.physEnd ≤ (maxPage map + 1) * 4096)
    (accepted : ∀ msg, pmmInit map kernel ≠ .error (.panic msg)) : ClearsExactly map kernel := by
  have room : findBitmap ((maxPage map + 1 + 7) / 8) map ≠ none := by
    intro none
    obtain ⟨msg, panics⟩ := (pmmInit_panics_iff map kernel).mpr none
    exact accepted msg panics
  obtain ⟨addr, found⟩ := Option.ne_none_iff_exists'.mp room
  obtain ⟨s, returned, initialized⟩ := pmmInit_returns aligned fitsInt image found
  exact ⟨s, returned, initialized.pageCount, fun p => initialized.clear_iff fitsInt image⟩

/-- A kernel of 256 KiB at `KERNEL_PHYS_BASE`. -/
def kernelAtBase : KernelImage :=
  ⟨0x200000, 0x240000, by decide, by decide, by decide⟩

def twoRanges : List EfiMemoryDescriptor :=
  [⟨7, 0x1000, 5, by decide⟩, ⟨7, 0x300000, 1, by decide⟩]

theorem twoRanges_accepted (msg : String) : pmmInit twoRanges kernelAtBase ≠ .error (.panic msg) := by
  intro panics
  have none := (pmmInit_panics_iff twoRanges kernelAtBase).mp ⟨msg, panics⟩
  revert none
  decide +kernel

theorem twoRanges_clearsExactly : ClearsExactly twoRanges kernelAtBase :=
  pmmInit_clearsExactly twoRanges kernelAtBase (by decide) (by decide +kernel) (by decide +kernel)
    twoRanges_accepted

def wideRange : List EfiMemoryDescriptor := [⟨7, 0x1000, 2 ^ 34 - 1, by decide⟩]

/-- Its bitmap has 2^31 bytes, which is a negative `int`: the loop that should reserve the bitmap
runs on past the end of the bitmap. -/
theorem wideRange_not_clearsExactly :
    (∀ desc ∈ wideRange, desc.physicalStart % 4096 = 0 ∧
      desc.physicalStart + desc.numberOfPages * 4096 ≤ 2 ^ 46) ∧
    kernelAtBase.physEnd ≤ maxPage wideRange * 4096 ∧
    (∀ msg, pmmInit wideRange kernelAtBase ≠ .error (.panic msg)) ∧
    (∃ index, pmmInit wideRange kernelAtBase = .error (.outOfBounds index)) ∧
    ¬ClearsExactly wideRange kernelAtBase := by
  have pages : maxPage wideRange = 2 ^ 34 - 1 := by decide +kernel
  have found : findBitmap (2 ^ 31) wideRange = some 0x1000 := by decide +kernel
  have start : regionStart 0x1000 = 0x1000 := by decide +kernel
  have count : regionPages 0x1000 (i32 (2 ^ 31)) = 2 ^ 52 - 2 ^ 19 := by decide +kernel
  have size : (maxPage wideRange + 1 + 7) / 8 = 2 ^ 31 := by omega
  have past : 2 ^ 34 ∈ Rereserved 0x1000 (2 ^ 31) kernelAtBase := by
    refine Or.inl (Or.inr ?_)
    rw [regionVisited, start, count, mem_visited_iff (by decide)]
    decide
  have stops : ∃ index, pmmInit wideRange kernelAtBase = .error (.outOfBounds index) := by
    rcases pmmInit_cases wideRange kernelAtBase with ⟨none, -⟩ | ⟨-, index, -, stopped, -⟩ | ⟨s, -, initialized⟩
    · rw [size, found] at none
      cases none
    · exact ⟨index, stopped⟩
    · have sizes : s.bitmapSize = 2 ^ 31 := by rw [initialized.bitmapSize, initialized.pageCount, size]
      have address := initialized.bitmapFound
      rw [sizes, found] at address
      have inside := initialized.inside (2 ^ 34)
      rw [sizes, ← Option.some.inj address] at inside
      exact absurd (inside past) (by decide)
  obtain ⟨index, stopped⟩ := stops
  refine ⟨by decide +kernel, by rw [pages]; decide, fun msg panics => ?_, ⟨index, stopped⟩, ?_⟩
  · rw [stopped] at panics
    cases panics
  · rintro ⟨s, returned, -⟩
    rw [stopped] at returned
    cases returned

end Xos.Memory
