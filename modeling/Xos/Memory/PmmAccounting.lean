import Mathlib.Order.Interval.Finset.Nat
import Xos.Lib.Pool
import Xos.Memory.PmmInitCorrectness

/-!
# The `used_memory` counter

After `pmm_init` the counter is 4096 times the number of set bits, and every call keeps it so,
except `pmm_alloc_pages` for 2^20 pages or more: there the 32-bit product `count * 4096` wraps.
-/
namespace Xos.Memory

open Word Lib Relation Outcome Finset

inductive PmmCall where
  | allocPage
  | allocPages (count : Nat)
  | freePage (addr : Nat)
  deriving DecidableEq, Repr

namespace PmmCall

def run (s : Pmm) : PmmCall → Outcome Pmm
  | .allocPage => do
    let (s, _) ← pmmAllocPage s
    pure s
  | .allocPages count => do
    let (s, _) ← pmmAllocPages s count
    pure s
  | .freePage addr => pmmFreePage s addr

def Narrow : PmmCall → Prop
  | .allocPages count => u32 count < 2 ^ 20
  | _ => True

end PmmCall

/-- The counter is right, `pmm_get_stats` reports the free pages, and its subtraction does not
wrap. -/
structure Pmm.Balanced (s : Pmm) : Prop where
  used : s.usedMemory = 4096 * s.usedPages
  free : (pmmGetStats s).free = 4096 * s.freePages
  noWrap : s.usedMemory ≤ (pmmGetStats s).total

variable {s : Pmm}

theorem Pmm.balanced_iff (bound : s.pageCount < 2 ^ 52) : s.Balanced ↔ s.usedMemory = 4096 * s.usedPages := by
  refine ⟨Pmm.Balanced.used, fun used => ?_⟩
  have total : u64 (s.pageCount * 4096) = s.pageCount * 4096 := u64_of_lt (by omega)
  have pages := s.usedPages_add_freePages
  have le : s.usedMemory ≤ s.pageCount * 4096 := by omega
  refine ⟨used, ?_, ?_⟩
  · rw [pmmGetStats]
    simp only [total]
    rw [sub64_of_le le]
    omega
  · rw [pmmGetStats]
    simp only [total]
    exact le

variable {first count : Nat}

theorem usedPages_allocated (fits : first + count ≤ s.pageCount) (window : Window s.isFree first count) :
    (s.allocated first count).usedPages = s.usedPages + count := by
  have grown : (s.allocated first count).usedPages =
      s.usedPages + (Finset.Ico first (first + count)).card := by
    apply usedPages_of_set (Pmm.allocated_pageCount _ _ _)
    · intro p mem
      rw [mem_Ico] at mem
      omega
    · intro p mem
      rw [mem_Ico] at mem
      simpa [Pmm.isFree] using window p mem.1 mem.2
    · intro p _
      simp [mem_Ico]
  rw [grown, Nat.card_Ico]
  omega

theorem usedPages_released {page : Nat} (managed : page < s.pageCount)
    (used : s.bit page = true) : (s.released page).usedPages + 1 = s.usedPages :=
  usedPages_of_clear (Pmm.released_pageCount _ _) managed used (fun p _ => by simp)

/-- The allocator state that calls keep, apart from the counter. -/
structure Pmm.Ready (s : Pmm) : Prop where
  valid : s.Valid
  small : s.pageCount < 2 ^ 52

private theorem Pmm.Ready.allocated (ready : s.Ready)
    (fits : first + count ≤ s.pageCount) : (s.allocated first count).Ready :=
  ⟨ready.valid.allocated fits, by rw [Pmm.allocated_pageCount]; exact ready.small⟩

theorem balanced_allocated_iff (ready : s.Ready) (balanced : s.Balanced)
    (fits : first + count ≤ s.pageCount) (window : Window s.isFree first count) :
    (s.allocated first count).Balanced ↔ count < 2 ^ 20 := by
  have small := ready.small
  have le := (s.allocated first count).usedPages_le
  rw [Pmm.balanced_iff (ready.allocated fits).small, Pmm.allocated_usedMemory, balanced.used]
  rw [usedPages_allocated fits window] at le ⊢
  rw [Pmm.allocated_pageCount] at le
  by_cases narrow : count < 2 ^ 20
  · rw [u32_of_lt (by omega), u64_of_lt (by omega)]
    omega
  · have truncated := u32_lt (count * 4096)
    rw [u64_of_lt (by omega)]
    omega

theorem balanced_released (ready : s.Ready) (balanced : s.Balanced) {page : Nat}
    (managed : page < s.pageCount) (used : s.bit page = true) : (s.released page).Balanced := by
  have small := ready.small
  have pages := usedPages_released managed used
  have counter := balanced.used
  rw [Pmm.balanced_iff (by rwa [Pmm.released_pageCount]), Pmm.released_usedMemory,
    sub64_of_le (by omega)]
  omega

/-- A call that returns leaves a balanced state exactly when it is narrow. -/
theorem PmmCall.run_balanced_iff {s' : Pmm} (ready : s.Ready) (balanced : s.Balanced) {call : PmmCall} (ret : call.run s = .ok s') :
    s'.Ready ∧ (s'.Balanced ↔ call.Narrow) := by
  have valid := ready.valid
  cases call with
  | allocPage =>
    obtain ⟨⟨t, addr⟩, called, same⟩ := of_bind ret
    cases same
    rcases pmmAllocPage_spec valid with ⟨i, bound, clear, -, -, res⟩ | ⟨-, stopped⟩
    · have window : Window s.isFree i 1 := by
        intro p low high
        rw [show p = i by omega, Pmm.isFree, clear]
        rfl
      rw [res, Except.ok.injEq, Prod.mk.injEq] at called
      rw [← called.1, balanced_allocated_iff ready balanced bound window]
      exact ⟨ready.allocated bound, fun _ => trivial, fun _ => by omega⟩
    · rw [stopped] at called
      cases called
  | allocPages count =>
    obtain ⟨⟨t, addr⟩, called, same⟩ := of_bind ret
    cases same
    obtain ⟨f, fits, window, rfl, -⟩ := pmmAllocPages_ok valid called
    exact ⟨ready.allocated fits, balanced_allocated_iff ready balanced fits window⟩
  | freePage addr =>
    obtain ⟨-, range, used, rfl⟩ := (pmmFreePage_ok_iff valid _).mp ret
    refine ⟨⟨valid.released _, by rw [Pmm.released_pageCount]; exact ready.small⟩, ?_⟩
    exact ⟨fun _ => trivial, fun _ => balanced_released ready balanced range used⟩

section

variable {map : List EfiMemoryDescriptor} {kernel : KernelImage} (initialized : Initialized map kernel s)
include initialized

theorem Initialized.ready : s.Ready := by
  have bound := maxPage_lt map
  have pages := initialized.pageCount
  exact ⟨initialized.valid, by omega⟩

theorem Initialized.balanced : s.Balanced := by
  have small := initialized.ready.small
  have le := s.usedPages_le
  rw [Pmm.balanced_iff small, initialized.counted, u64_of_lt (by omega)]

end

def NarrowStep (s s' : Pmm) : Prop := ∃ call : PmmCall, call.Narrow ∧ call.run s = .ok s'

/-- From `pmm_init` on, calls for fewer than 2^20 pages at a time keep the counter equal to the
used bytes; the first larger call that returns breaks it. -/
theorem used_memory_balanced (map : List EfiMemoryDescriptor) (kernel : KernelImage) (s s' : Pmm)
    (started : pmmInit map kernel = .ok s) (run : ReflTransGen NarrowStep s s') :
    s'.Balanced ∧ ∀ (call : PmmCall) (s'' : Pmm), call.run s' = .ok s'' →
      (s''.Balanced ↔ call.Narrow) := by
  have initialized := pmmInit_ok started
  have kept : s'.Ready ∧ s'.Balanced := by
    refine invariant_of_run (fun s => s.Ready ∧ s.Balanced) ?_ run
      ⟨initialized.ready, initialized.balanced⟩
    rintro t t' ⟨ready, balanced⟩ ⟨call, narrow, returned⟩
    obtain ⟨ready', iff⟩ := call.run_balanced_iff ready balanced returned
    exact ⟨ready', iff.mpr narrow⟩
  exact ⟨kept.2, fun call s'' returned => (call.run_balanced_iff kept.1 kept.2 returned).2⟩

theorem twoRanges_balanced : ∃ s s', pmmInit twoRanges kernelAtBase = .ok s ∧
    PmmCall.allocPage.run s = .ok s' ∧ s'.Balanced := by
  have runs : (pmmInit twoRanges kernelAtBase >>= PmmCall.allocPage.run).isOk = true := by
    decide +kernel
  obtain ⟨s', both⟩ := isOk_iff.mp runs
  obtain ⟨s, started, returned⟩ := of_bind both
  exact ⟨s, s', started, returned, (used_memory_balanced twoRanges kernelAtBase s s' started
    (ReflTransGen.single ⟨.allocPage, trivial, returned⟩)).1⟩

def eightGiB : List EfiMemoryDescriptor := [⟨7, 0x100000000, 2 ^ 21, by decide⟩]

/-- A request for 2^20 pages, the first whose byte size does not fit 32 bits, is served after
start-up and leaves the counter 4 GiB short. -/
theorem four_GiB_request_unbalanced : ∃ s s', pmmInit eightGiB kernelAtBase = .ok s ∧
    (PmmCall.allocPages (2 ^ 20)).run s = .ok s' ∧ ¬s'.Balanced := by
  have pages : maxPage eightGiB = 3 * 2 ^ 20 - 1 := by decide +kernel
  have found : findBitmap ((maxPage eightGiB + 1 + 7) / 8) eightGiB = some 0x100000000 := by
    decide +kernel
  have fitsInt : (maxPage eightGiB + 1 + 7) / 8 < 2 ^ 31 := by omega
  have image : kernelAtBase.physEnd ≤ (maxPage eightGiB + 1) * 4096 := by
    rw [pages]
    decide
  obtain ⟨s, started, initialized⟩ := pmmInit_returns (by decide) fitsInt image found
  have valid := initialized.valid
  have total := initialized.pageCount
  have size := initialized.bitmapSize
  have address : s.bitmapAddr = 0x100000000 := by
    have again := initialized.bitmapFound
    rw [size, total, found] at again
    exact (Option.some.inj again).symm
  -- the bitmap takes the first 96 pages of the range, and the rest of it is free
  have window : Window s.isFree (2 ^ 20 + 96) (2 ^ 20) := by
    intro p low high
    have clear : s.bit p = false := by
      refine (initialized.clear_iff fitsInt image (by omega)).mpr ⟨?_, by omega, ?_, ?_⟩
      · exact ⟨_, List.mem_singleton_self _, rfl, show 0x100000000 / 4096 ≤ p by omega,
          show p < 0x100000000 / 4096 + 2 ^ 21 by omega⟩
      · rintro ⟨-, below⟩
        omega
      · rintro ⟨-, below⟩
        have top : kernelAtBase.physStart + (kernelAtBase.physEnd - kernelAtBase.physStart) = 0x240000 := rfl
        omega
    rw [Pmm.isFree, clear]
    rfl
  have hint := initialized.lastIndex
  rcases pmmAllocPages_spec valid (show 1 ≤ 2 ^ 20 by norm_num) (by omega) with
    ⟨f, fits, -, free, returned⟩ | ⟨missed, -, -⟩
  · have called : (PmmCall.allocPages (2 ^ 20)).run s = .ok (s.allocated f (2 ^ 20)) := by
      rw [PmmCall.run, returned]
      rfl
    refine ⟨s, _, started, called, ?_⟩
    rw [(PmmCall.run_balanced_iff initialized.ready initialized.balanced called).2, PmmCall.Narrow,
      u32_of_lt (by omega)]
    omega
  · exact absurd ⟨_, by omega, by omega, window⟩ missed

end Xos.Memory
