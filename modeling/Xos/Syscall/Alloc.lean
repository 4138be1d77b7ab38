import Xos.Syscall.Free

/-!
# What `SYS_ALLOC` maps

The number of pages is computed in 64 bits, `pmm_alloc_pages` takes 32 of them, and `vmm_map_pages`
takes all. From 2^32 pages on the caller gets frames that were not allocated for it.
-/
namespace Xos.Syscall

open Memory Scheduler Lib Word Outcome Option Finset

def Taken (before after : Pmm) (page : Nat) : Prop := before.bit page = false ∧ after.bit page = true

/-- `SYS_ALLOC` as it is meant: the frames mapped from `vaddr` on in the tables below `root` are those
that were taken for the call, and every byte of the region is in one of them. -/
def AllocatesExactly (k k' : Kernel) (root size vaddr : Nat) : Prop :=
  ∃ pmm phys, pmmAllocPages k.vmm.pmm (pagesFor size) = .ok (pmm, phys) ∧
    (∀ page, (∃ i, i < pagesFor size ∧ k'.vmm.frameAt root (vaddr + 4096 * i) = some (page * 4096)) ↔
      Taken k.vmm.pmm pmm page) ∧
    ∀ b, b < size → ∃ page, k'.vmm.frameAt root (vaddr + b) = some (page * 4096) ∧ Taken k.vmm.pmm pmm page

variable {n : Nat}

theorem taken_allocated {s : Pmm} {f : Nat} (window : Window s.isFree f n) (page : Nat) :
    Taken s (s.allocated f n) page ↔ f ≤ page ∧ page < f + n := by
  rw [Taken, Pmm.allocated_bit, Bool.or_eq_true, decide_eq_true_eq]
  constructor
  · rintro ⟨clear, inside | set⟩
    · exact inside
    · rw [clear] at set
      cases set
  · intro inside
    have free := window page inside.1 inside.2
    rw [Pmm.isFree, Bool.not_eq_true'] at free
    exact ⟨free, Or.inl inside⟩

variable {process : Process} {vaddr : Nat}

variable {k : Kernel} {p : Nat}

theorem mapAtHeapNext_eq (record : k.processes p = some process) (phys n : Nat) : mapAtHeapNext k p phys n =
      vmmMapPages k.vmm process.addressSpace process.heapNext phys n userFlags >>= fun vmm =>
        .ok ({ k with vmm := vmm }.setProcess p { process with
          heapNext := u64 (process.heapNext + u64 (n * pageSize)) }, process.heapNext) := by
  have found (vmm : Vmm) : { k with vmm := vmm }.process p = .ok process := by
    rw [Kernel.process, record]
    rfl
  rw [mapAtHeapNext, show k.process p = .ok process from found k.vmm, ok_bind]
  refine congrArg (Bind.bind _) (funext fun vmm => ?_)
  rw [Kernel.updateProcess, found vmm]
  rfl

variable {k' : Kernel}

theorem mapAtHeapNext_ok {phys : Nat} (record : k.processes p = some process)
    (ret : mapAtHeapNext k p phys n = .ok (k', vaddr)) :
    vaddr = process.heapNext ∧ ∃ vmm, vmmMapPages k.vmm process.addressSpace process.heapNext phys n userFlags = .ok vmm ∧
      k' = { k with vmm := vmm }.setProcess p { process with heapNext := u64 (process.heapNext + u64 (n * pageSize)) } := by
  rw [mapAtHeapNext_eq record] at ret
  obtain ⟨vmm, mapped, res⟩ := of_bind ret
  cases res
  exact ⟨rfl, vmm, mapped, rfl⟩

/-- `SYS_ALLOC` takes pages and maps them at the end of the heap of the caller. -/
theorem Caller.sysAlloc_eq (caller : Caller k p process) (size : Nat) : sysAlloc k size =
      if size = 0 then .ok (k, 0)
      else pmmAllocPages k.vmm.pmm (pagesFor size) >>= fun taken =>
        if taken.2 = 0 then .ok (withPmm k taken.1, 0)
        else mapAtHeapNext (withPmm k taken.1) p taken.2 (pagesFor size) := by
  unfold sysAlloc
  split
  · rfl
  · refine congrArg (Bind.bind _) (funext fun taken => ?_)
    dsimp only
    split
    · rfl
    · rw [(caller.retake taken.1).processCurrent_eq, ok_bind]

theorem Caller.sysAlloc_ok (caller : Caller k p process) {size : Nat}
    (ret : sysAlloc k size = .ok (k', vaddr)) (region : vaddr ≠ 0) :
    size ≠ 0 ∧ ∃ pmm phys, pmmAllocPages k.vmm.pmm (pagesFor size) = .ok (pmm, phys) ∧
      mapAtHeapNext (withPmm k pmm) p phys (pagesFor size) = .ok (k', vaddr) := by
  rw [caller.sysAlloc_eq] at ret
  split at ret
  · cases ret
    exact absurd rfl region
  next pos =>
  obtain ⟨⟨pmm, phys⟩, taken, ret⟩ := of_bind ret
  split at ret
  · cases ret
    exact absurd rfl region
  exact ⟨pos, pmm, phys, taken, ret⟩

theorem region_frameAt {v v' : Vmm} {shared : Fin 512 → Prop} {level level' : Nat → Nat} {root f i : Nat}
    (maps : Vmm.Maps shared root (Vmm.writtenRange vaddr (f * 4096) userFlags n) v v' level level') (small : n < 2 ^ 32)
    (bound : f + n ≤ 2 ^ 40) (inside : i < n) : v'.frameAt root (vaddr + 4096 * i) = some ((f + i) * 4096) := by
  rw [maps.here, Vmm.writtenRange_eq (by omega) (by omega) (by decide),
    Vmm.rangeMap_of_distinct inside fun j within same => by unfold pageOf at same; omega, some_or]
  exact congrArg some (by omega)

theorem beyond_frameAt {v v' : Vmm} {shared : Fin 512 → Prop} {level level' : Nat → Nat} {root f : Nat}
    (maps : Vmm.Maps shared root (Vmm.writtenRange vaddr (f * 4096) userFlags n) v v' level level') (large : 2 ^ 32 ≤ n) :
    v'.frameAt root (vaddr + 4096 * (2 ^ 32 * (n / 2 ^ 32) - 1)) =
      some ((f + (2 ^ 32 * (n / 2 ^ 32) - 1)) % 2 ^ 40 * 4096) := by
  -- the pages after this one are fewer than 2^32, so none of them comes back to it
  have last : Vmm.rangeMap vaddr (f * 4096) n (pageOf (vaddr + 4096 * (2 ^ 32 * (n / 2 ^ 32) - 1))) =
      some (f * 4096 + 4096 * (2 ^ 32 * (n / 2 ^ 32) - 1)) := by
    refine Vmm.rangeMap_of_last (by omega) fun j later within same => ?_
    unfold pageOf at same
    omega
  have flags : userFlags &&& pageAddrMask = 0 := by decide
  rw [maps.here, Vmm.writtenRange, last, map_some, some_or, writtenFrame, Nat.and_or_distrib_right, flags,
    Nat.or_zero, and_pageAddrMask]
  exact congrArg some (by omega)

section Exact

variable {k : Kernel} {shared : Fin 512 → Prop} {level level' : Nat → Nat} {process : Process} {vmm : Vmm} {size f : Nat}
  (wf : k.vmm.WellFormed shared level) (fits : f + u32 (pagesFor size) ≤ k.vmm.pmm.pageCount)
  (window : Window k.vmm.pmm.isFree f (u32 (pagesFor size)))
  (taken : pmmAllocPages k.vmm.pmm (pagesFor size) = .ok (k.vmm.pmm.allocated f (u32 (pagesFor size)), f * 4096))
  (maps : Vmm.Maps shared process.addressSpace.pml4
    (Vmm.writtenRange process.heapNext (f * 4096) userFlags (pagesFor size))
    { k.vmm with pmm := k.vmm.pmm.allocated f (u32 (pagesFor size)) } vmm level level')

include wf fits window in
theorem taken_low {page : Nat} (inside : f ≤ page ∧ page < f + u32 (pagesFor size)) : page < 2 ^ 40 := by
  have clear := ((taken_allocated window page).mpr inside).1
  exact (wf.fresh page (by omega) clear).2.1

include window taken maps

theorem fitting_of_exact (after : k'.vmm = vmm) (wide : size < 2 ^ 64) (pos : size ≠ 0)
    (exactly : AllocatesExactly k k' process.addressSpace.pml4 size process.heapNext) :
    size + 4095 < 2 ^ 64 ∧ (size + 4095) / 4096 < 2 ^ 32 := by
  have pages : pagesFor size = u64 (size + 4095) / 4096 := rfl
  obtain ⟨pmm, phys, again, frames, covered⟩ := exactly
  obtain ⟨rfl, rfl⟩ := Prod.mk.inj (Except.ok.inj (taken.symm.trans again))
  have fitting : size + 4095 < 2 ^ 64 := by
    by_contra wraps
    -- the sum wraps around to less than a page, and nothing is taken for the first byte
    obtain ⟨page, -, taken'⟩ := covered 0 (Nat.pos_of_ne_zero pos)
    have inside := (taken_allocated window page).mp taken'
    have none : u32 (pagesFor size) = 0 := by
      rw [pages, u64_sub_of_le (by omega) (by omega)]
      unfold u32
      omega
    omega
  refine ⟨fitting, ?_⟩
  by_contra large
  rw [u64_of_lt fitting] at pages
  rw [after] at frames
  have inside := (taken_allocated window _).mp ((frames _).mp ⟨_, by omega, beyond_frameAt maps (by omega)⟩)
  have cut : u32 (pagesFor size) = pagesFor size % 2 ^ 32 := by
    unfold u32
    rfl
  omega

include wf fits

theorem exact_of_fitting (after : k'.vmm = vmm) (aligned : process.heapNext % 4096 = 0) (pos : size ≠ 0)
    (fitting : size + 4095 < 2 ^ 64) (small : (size + 4095) / 4096 < 2 ^ 32) :
    AllocatesExactly k k' process.addressSpace.pml4 size process.heapNext := by
  have pages : pagesFor size = u64 (size + 4095) / 4096 := rfl
  rw [u64_of_lt fitting] at pages
  have whole : u32 (pagesFor size) = pagesFor size := u32_of_lt (by omega)
  have bound : f + pagesFor size ≤ 2 ^ 40 := by
    have final : f + pagesFor size - 1 < 2 ^ 40 := taken_low wf fits window (by omega)
    omega
  have frame {i : Nat} (inside : i < pagesFor size) :
      k'.vmm.frameAt process.addressSpace.pml4 (process.heapNext + 4096 * i) = some ((f + i) * 4096) := by
    rw [after]
    exact region_frameAt maps (by omega) bound inside
  refine ⟨_, _, taken, fun page => ?_, fun b inside => ?_⟩
  · rw [taken_allocated window, whole]
    constructor
    · rintro ⟨i, inside, here⟩
      have same := some.inj ((frame inside).symm.trans here)
      omega
    · intro inside
      refine ⟨page - f, by omega, (frame (by omega)).trans ?_⟩
      rw [Nat.add_sub_cancel' inside.1]
  · have page : pageOf (process.heapNext + b) = pageOf (process.heapNext + 4096 * (b / 4096)) := by
      unfold pageOf
      omega
    refine ⟨f + b / 4096, (Vmm.frameAt_congr page).trans (frame (by omega)), (taken_allocated window _).mpr (by omega)⟩

end Exact

/-- For a call that returns a region, the frames mapped are those allocated for it and cover it
exactly when the size can be rounded up in 64 bits and is less than 2^32 pages. -/
theorem sysAlloc_exact_iff (k k' : Kernel) (shared : Fin 512 → Prop) (level : Nat → Nat) (p : Nat) (process : Process)
    (size vaddr : Nat) (caller : Caller k p process) (wf : k.vmm.WellFormed shared level)
    (root : level process.addressSpace.pml4 = 4) (aligned : process.heapNext % 4096 = 0) (wide : size < 2 ^ 64)
    (returned : sysAlloc k size = .ok (k', vaddr)) (region : vaddr ≠ 0) :
    AllocatesExactly k k' process.addressSpace.pml4 size vaddr ↔
      size + 4095 < 2 ^ 64 ∧ (size + 4095) / 4096 < 2 ^ 32 := by
  obtain ⟨positive, pmm, phys, taken, mapped⟩ := caller.sysAlloc_ok returned region
  obtain ⟨f, fits, window, rfl, rfl⟩ := pmmAllocPages_ok wf.valid taken
  obtain ⟨rfl, vmm, written, rfl⟩ := mapAtHeapNext_ok (caller.retake _).record mapped
  obtain ⟨level', -, maps⟩ := (wf.allocated f (u32 (pagesFor size)) fits).mapPages_ok root written
  exact ⟨fitting_of_exact window taken maps rfl wide positive,
    fun ⟨fitting, small⟩ => exact_of_fitting wf fits window taken maps rfl aligned positive fitting small⟩

def largeProcess : Kernel := oneProcessIn (blankVmm (2 ^ 34)) (blankVmm (2 ^ 34)).kernelSpace

theorem freePages_large {first count : Nat} (small : count ≤ 1) :
    3 * (2 ^ 32 + 1) ≤ (largeProcess.vmm.pmm.allocated first count).freePages := by
  have used : (largeProcess.vmm.pmm.allocated first count).usedPages ≤ ({0, 1, first} : Finset Nat).card := by
    refine card_le_card fun page mem => ?_
    have set := (mem_filter.mp mem).2
    rw [Pmm.allocated_bit, Bool.or_eq_true, decide_eq_true_eq] at set
    rcases set with inside | low
    · simp only [mem_insert, mem_singleton]
      omega
    · replace low : (blankVmm (2 ^ 34)).pmm.bit page = true := low
      rw [blankVmm_bit, decide_eq_true_eq] at low
      simp only [mem_insert, mem_singleton]
      omega
  have all := (largeProcess.vmm.pmm.allocated first count).usedPages_add_freePages
  rw [Pmm.allocated_pageCount] at all
  have three : ({0, 1, first} : Finset Nat).card ≤ 3 := card_le_three
  have total : largeProcess.vmm.pmm.pageCount = 2 ^ 34 := rfl
  omega

theorem pagesFor_large : pagesFor (2 ^ 44 + 1) = 2 ^ 32 + 1 := by decide +kernel

theorem cut_large : u32 (pagesFor (2 ^ 44 + 1)) = 1 := by decide +kernel

theorem large_taken : ∃ f, f + u32 (pagesFor (2 ^ 44 + 1)) ≤ largeProcess.vmm.pmm.pageCount ∧ f ≠ 0 ∧
    Window largeProcess.vmm.pmm.isFree f (u32 (pagesFor (2 ^ 44 + 1))) ∧ pmmAllocPages largeProcess.vmm.pmm (pagesFor (2 ^ 44 + 1)) =
      .ok (largeProcess.vmm.pmm.allocated f (u32 (pagesFor (2 ^ 44 + 1))), f * 4096) := by
  have bit (page : Nat) : largeProcess.vmm.pmm.bit page = decide (page < 2) := blankVmm_bit _ page
  have wf : (blankVmm (2 ^ 34)).WellFormed upperHalf _ := blankVmm_wellFormed upperHalf (by decide) (by decide)
  rw [← pmmAllocPages_u32, cut_large]
  rcases pmmAllocPages_spec (s := largeProcess.vmm.pmm) wf.valid (Nat.le_refl 1) (by decide) with
    ⟨f, fits, -, window, taken⟩ | ⟨full, -, -⟩
  · refine ⟨f, fits, ?_, window, taken⟩
    rintro rfl
    have free := window 0 (Nat.le_refl 0) (by decide)
    rw [Pmm.isFree, bit] at free
    cases free
  · refine absurd ⟨2, by decide, by decide, fun page low high => ?_⟩ full
    rw [Pmm.isFree, bit, Bool.not_eq_true', decide_eq_false_iff_not]
    omega

/-- One page is allocated, and 2^32 + 1 pages are mapped. -/
theorem sixteen_TiB_not_exact : ∃ k' vaddr, sysAlloc largeProcess (2 ^ 44 + 1) = .ok (k', vaddr) ∧ vaddr ≠ 0 ∧
    ¬AllocatesExactly largeProcess k' (blankVmm (2 ^ 34)).kernelSpace.pml4 (2 ^ 44 + 1) vaddr := by
  obtain ⟨f, fits, nonzero, window, taken⟩ := large_taken
  have wf : largeProcess.vmm.WellFormed upperHalf _ := blankVmm_wellFormed upperHalf (by decide) (by decide)
  obtain ⟨process, record, space, heapNext⟩ : ∃ process, largeProcess.processes 0x10 = some process ∧
      process.addressSpace = (blankVmm (2 ^ 34)).kernelSpace ∧ process.heapNext = userHeapBase := ⟨_, rfl, rfl, rfl⟩
  have caller : Caller largeProcess 0x10 process := ⟨rfl, record⟩
  have root : Radix.ranked (fun _ => 0) (physToHhdm 0x1000) 4 process.addressSpace.pml4 = 4 := by
    rw [space]
    exact Radix.ranked_self
  rcases (wf.allocated f _ fits).mapPages_written root process.heapNext (f * 4096) (pagesFor (2 ^ 44 + 1)) userFlags with
    ⟨vmm, mapped, level, -, maps, -⟩ | ⟨-, -, -, few⟩
  · have returned := caller.sysAlloc_eq (2 ^ 44 + 1)
    rw [if_neg (by decide), taken, ok_bind, if_neg (by dsimp only; omega),
      mapAtHeapNext_eq (caller.retake _).record, withPmm, mapped, ok_bind] at returned
    refine ⟨_, process.heapNext, returned, by rw [heapNext]; decide, fun exactly => ?_⟩
    rw [← space] at exactly
    have fitting := fitting_of_exact window taken maps rfl (by decide) (by decide) exactly
    exact absurd fitting.2 (by decide)
  · have enough : _ ≤ (largeProcess.vmm.pmm.allocated f _).freePages := freePages_large (Nat.le_of_eq cut_large)
    rw [← pagesFor_large] at enough
    exact absurd enough (Nat.not_le.mpr few)

/-- A region of two pages. -/
theorem two_pages_exact : ∃ k', sysAlloc oneProcess 5000 = .ok (k', userHeapBase) ∧
    AllocatesExactly oneProcess k' (physToHhdm 0x6000) 5000 userHeapBase := by
  have run : (sysAlloc oneProcess 5000 >>= fun result => pure result.2) = .ok userHeapBase := by decide +kernel
  obtain ⟨⟨k', vaddr⟩, returned, seen⟩ := of_bind run
  obtain rfl := Except.ok.inj seen
  obtain ⟨level, wf, -⟩ := oneProcess_wellFormed
  have exactly := sysAlloc_exact_iff oneProcess k' upperHalf _ 0x10 _ 5000 userHeapBase ⟨rfl, rfl⟩ wf Radix.ranked_self
    (by decide) (by decide) returned (by decide)
  exact ⟨k', returned, exactly.mpr (by decide)⟩

end Xos.Syscall
