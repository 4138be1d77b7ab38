import Xos.Memory.AddressSpaces
import Xos.Memory.PmmInitCorrectness

/-!
# The address space that the kernel boots with (`vmm_init`)

The tables are well formed from the first mapping on. The stack is mapped last, so nothing is mapped over it.
-/
namespace Xos.Memory

open Word Lib Outcome Vmm

/-- Between two mappings of `vmm_init`, when `s` is the allocator that it was given. -/
structure Booting (space : AddressSpace) (s : Pmm) (v : Vmm) : Prop where
  kernel : v.kernelSpace = space
  pageCount : v.pmm.pageCount = s.pageCount
  bits : ∀ page, s.bit page = true → v.pmm.bit page = true
  tables : ∃ level, v.WellFormed upperHalf level ∧ level space.pml4 = 4

variable {space : AddressSpace} {s : Pmm} {v : Vmm} {page : Nat}

theorem Booting.mapPages (booting : Booting space s v) (virt phys n flags : Nat) :
    Meets (vmmMapPages v space virt phys n flags) (Booting space s) (· = outOfMemory) := by
  obtain ⟨level, wf, top⟩ := booting.tables
  refine (wf.mapPages_meets top virt phys n flags).weaken (fun v' ⟨level', wf', maps⟩ => ?_) fun _ => id
  exact ⟨maps.kernelSpace.trans booting.kernel, maps.pageCount.trans booting.pageCount,
    fun page used => maps.bits page (booting.bits page used), level', wf', (maps.levels _ (by omega)).trans top⟩

section

variable (null : s.bit 0 = true)
include null

theorem nonzero_of_clear (clear : s.bit page = false) : page ≠ 0 := by
  rintro rfl
  cases clear.symm.trans null

variable (pages : s.pageCount ≤ 2 ^ 35)
include pages

theorem booting_root (valid : s.Valid) (managed : page < s.pageCount) (memory : Nat → PageTable) :
    Booting ⟨page * 4096, physToHhdm (page * 4096)⟩ s
      (clearTable ⟨s.allocated page 1, memory, ⟨page * 4096, physToHhdm (page * 4096)⟩⟩ (physToHhdm (page * 4096))) := by
  have nonnull {other : Nat} (inside : other < s.pageCount) : physToHhdm (other * 4096) ≠ 0 := by
    rw [physToHhdm_of_lt (by omega)]
    unfold hhdmBase
    omega
  refine ⟨rfl, Pmm.allocated_pageCount .., fun other used => ?_, _, wellFormed_of_blank (valid.allocated managed)
    (by omega) (nonnull managed) (fun i => clearTable_self ..) fun other inside free => ?_, Radix.ranked_self⟩
  · exact (Pmm.allocated_bit ..).trans (by rw [used, Bool.or_true])
  · -- a page that is still clear is not the one of the table, and not page 0
    have inside : other < s.pageCount := inside
    obtain ⟨differ, free⟩ := Bool.or_eq_false_iff.mp ((Pmm.allocated_bit ..).symm.trans free)
    have differ := of_decide_eq_false differ
    exact ⟨by omega, nonzero_of_clear null free, by omega, nonnull inside⟩

/-- Where `vmm_setup_stack` maps the stack. -/
def stackBase : Nat := kernelStackTop - 4096 * kernelStackPageCount

/-- The stack is on the frames from `f` on, and `s` has them free. -/
def Vmm.StackOn (v : Vmm) (s : Pmm) (f : Nat) : Prop :=
  (∀ page, f ≤ page → page < f + kernelStackPageCount → page < s.pageCount ∧ s.bit page = false) ∧
    ∀ i < 4096 * kernelStackPageCount, vmmVirtToPhys v v.kernelSpace (stackBase + i) = f * 4096 + i

theorem Booting.stack (booting : Booting space s v) :
    Meets (vmmSetupStack v) (fun res => Booting space s res.1 ∧ ∃ f, res.1.StackOn s f) (· = outOfMemory) := by
  obtain rfl := booting.kernel
  obtain ⟨level, wf, top⟩ := booting.tables
  have count : kernelStackPageCount = 1024 := rfl
  rw [vmmSetupStack, show sub64 kernelStackTop (kernelStackPageCount * pageSize) = stackBase by decide +kernel]
  rcases pmmAllocPages_spec wf.valid (show 1 ≤ kernelStackPageCount by decide) (by decide) with
    ⟨f, fits, -, window, ret⟩ | ⟨-, -, stopped⟩
  · have clear : ∀ page, f ≤ page → page < f + kernelStackPageCount → page < s.pageCount ∧ s.bit page = false := by
      intro page low high
      have free : v.pmm.bit page = false := by simpa [Pmm.isFree] using window page low high
      refine ⟨booting.pageCount ▸ high.trans_le fits, Bool.eq_false_iff.mpr fun used => ?_⟩
      cases free.symm.trans (booting.bits page used)
    have nonzero := nonzero_of_clear null (clear f le_rfl (by omega)).2
    have small := (booting.pageCount ▸ fits).trans pages
    rw [ret, ok_bind]
    dsimp only
    rw [if_neg (by omega)]
    rcases (wf.allocated f _ fits).mapPages top stackBase (show f * 4096 % 4096 = 0 by omega)
      (show _ + 4096 * kernelStackPageCount ≤ _ by omega)
      (show (pagePresent ||| pageWritable) &&& pageAddrMask = 0 by decide) with
      ⟨v', ret, level', wf', maps, -⟩ | ⟨stop, stopped, failed, -⟩
    · have top' : level' v.kernelSpace.pml4 = 4 := (maps.levels _ (by omega)).trans top
      rw [ret, ok_bind]
      refine ⟨⟨maps.kernelSpace, maps.pageCount.trans ?_, fun page used => maps.bits page ?_, level', wf', top'⟩, f, clear, fun i inside => ?_⟩
      · exact (Pmm.allocated_pageCount ..).trans booting.pageCount
      · exact (Pmm.allocated_bit ..).trans (by rw [booting.bits page used, Bool.or_true])
      · -- the pages of the stack are distinct, so each shows its own frame
        have mapped := maps.here (stackBase + i)
        have aligned : stackBase % 4096 = 0 := by decide +kernel
        rw [show pageOf (stackBase + i) = pageOf (stackBase + 4096 * (i / 4096)) by unfold pageOf; omega,
          rangeMap_of_distinct (by omega) fun j within same => by unfold pageOf at same; omega, Option.some_or] at mapped
        rw [maps.kernelSpace, show vmmVirtToPhys v' v.kernelSpace _ = _ from wf'.tabled.virtToPhys_of_frame top' mapped]
        omega
    · rw [stopped, error_bind]
      exact failed
  · rw [stopped, error_bind]
    exact rfl

end

/-- `vmm_init` stops only for lack of memory. It leaves the kernel a well-formed forest of page tables, and its stack
on frames in a row that were free before. -/
theorem vmmInit_boots (s : Pmm) (valid : s.Valid) (null : s.bit 0 = true) (pages : s.pageCount ≤ 2 ^ 35)
    (memory : Nat → PageTable) (kernel : KernelImage) (fb : Framebuffer) : Meets (vmmInit s memory kernel fb)
      (fun v => (∃ level, v.WellFormed upperHalf level ∧ level v.kernelSpace.pml4 = 4) ∧ ∃ f, v.StackOn s f)
      (· = outOfMemory) := by
  rw [vmmInit]
  rcases pmmAllocPage_spec valid with ⟨page, managed, clear, -, -, ret⟩ | ⟨-, stopped⟩
  · have nonzero := nonzero_of_clear null clear
    rw [ret, ok_bind]
    dsimp only
    rw [if_neg (by omega)]
    refine .bind ((booting_root null pages valid managed memory).mapPages ..) fun v₁ image => ?_
    refine .bind (image.mapPages ..) fun v₂ screen => .bind (screen.mapPages ..) fun v₃ direct => ?_
    refine .bind (direct.mapPages ..) fun v₄ low => .bind (low.stack null pages) fun _ ⟨booting, stack⟩ => ?_
    exact ⟨booting.kernel ▸ booting.tables, stack⟩
  · rw [stopped, error_bind]
    exact rfl

/-- A machine with 4 GiB of memory. -/
theorem blankVmm_boots : Meets (vmmInit (blankVmm (2 ^ 20)).pmm (fun _ _ => 0) kernelAtBase ⟨0x80000000, 1080, 7680⟩)
    (fun v => (∃ level, v.WellFormed upperHalf level ∧ level v.kernelSpace.pml4 = 4) ∧ ∃ f, v.StackOn (blankVmm (2 ^ 20)).pmm f)
    (· = outOfMemory) :=
  vmmInit_boots _ (blankVmm_wellFormed upperHalf (by decide) (by decide)).valid (blankVmm_bit ..) (by decide) _ _ _

end Xos.Memory
