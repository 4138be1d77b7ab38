import Xos.Exec.Elf
import Xos.Memory.AddressSpaces

/-!
# What `elf_load` does to the page tables

The frames of a program were free, so that whatever it can reach in the lower half of its space is in use.
-/
namespace Xos.Exec

open Memory Word Lib Outcome

/-- The pages of the lower half lead to frames that are in use. -/
def InUse (v : Vmm) (pml4 : Nat) : Prop :=
  ∀ virt frame, ¬upperHalf (pml4Index virt) → v.frameAt pml4 virt = some frame → v.pmm.bit (frame / 4096) = true

theorem ElfProgramHeader.u32_pages (ph : ElfProgramHeader) : u32 ph.pages = ph.pages := by
  rw [ElfProgramHeader.pages, u32_of_lt (u32_lt _)]

theorem ElfProgramHeader.pageFlags_apart (ph : ElfProgramHeader) : ph.pageFlags &&& pageAddrMask = 0 := by
  unfold ElfProgramHeader.pageFlags
  split <;> decide

/-- What is kept while a program is loaded into a space. -/
structure Loading (space : AddressSpace) (v v' : Vmm) (level level' : Nat → Nat) : Prop extends Vmm.Keeps v v' level level' where
  wf : v'.WellFormed upperHalf level'
  inUse : InUse v' space.pml4

section Load

variable {space : AddressSpace} {v : Vmm} {m m' : Ram} {level level' : Nat → Nat} {size : Nat} {data : Bytes}

theorem Loading.root (loading : Loading space v m.vmm level level') (root : level space.pml4 = 4) : level' space.pml4 = 4 := by
  rw [loading.levels _ (by omega), root]

theorem Loading.segment {ph : ElfProgramHeader} (loading : Loading space v m.vmm level level') (root : level space.pml4 = 4)
    (ret : loadSegment space size data ph m = .ok m') : ∃ level', Loading space v m'.vmm level level' := by
  obtain ⟨⟨_, phys⟩, taken, ret⟩ := of_bind ret
  obtain ⟨vmm, mapped, ret⟩ := of_bind ret
  obtain ⟨_, -, ret⟩ := of_bind ret
  obtain ⟨_, -, ret⟩ := of_bind ret
  cases ret
  obtain ⟨f, fits, free, rfl, place⟩ := pmmAllocPages_ok loading.wf.valid taken
  rw [ph.u32_pages] at fits free mapped
  obtain ⟨level₂, wf, maps⟩ := (loading.wf.allocated f ph.pages fits).mapPages_ok (loading.root root) mapped
  -- the frames are below 2^40, because they were free
  have entries : Vmm.writtenRange ph.vaddr phys ph.pageFlags ph.pages = Vmm.rangeMap ph.vaddr phys ph.pages := by
    rcases Nat.eq_zero_or_pos ph.pages with none | some
    · rw [none]
      rfl
    · have clear : m.vmm.pmm.bit (f + ph.pages - 1) = false := by
        simpa [Pmm.isFree] using free (f + ph.pages - 1) (by omega) (by omega)
      have last := loading.wf.fresh (f + ph.pages - 1) (by omega) clear
      exact Vmm.writtenRange_eq (by omega) (by omega) ph.pageFlags_apart
  have keeps : Vmm.Keeps m.vmm vmm level' level₂ := by
    refine ⟨maps.levels, fun t known => ?_, fun page used => ?_, ?_, maps.kernelSpace⟩
    · rcases maps.newTables t known with old | ⟨page, managed, clear, place⟩
      · exact .inl old
      · simp only [Pmm.allocated_pageCount, Pmm.allocated_bit, Bool.or_eq_false_iff] at managed clear
        exact .inr ⟨page, managed, clear.2, place⟩
    · exact maps.bits page (by simp [used])
    · simpa using maps.pageCount
  refine ⟨level₂, loading.toKeeps.trans keeps, wf, fun virt frame lower here => ?_⟩
  rw [maps.here, entries, Option.or_eq_some_iff] at here
  rcases here with new | ⟨-, old⟩
  · obtain ⟨i, inside, -, rfl⟩ := Vmm.rangeMap_eq_some new
    refine maps.bits _ ?_
    rw [Pmm.allocated_bit, Bool.or_eq_true, decide_eq_true_eq]
    exact .inl (by omega)
  · exact keeps.bits _ (loading.inUse virt frame lower old)

theorem Loading.entry {i : Nat} (loading : Loading space v m.vmm level level') (root : level space.pml4 = 4)
    (ret : loadEntry space size data i m = .ok m') : ∃ level', Loading space v m'.vmm level level' := by
  obtain ⟨header, -, ret⟩ := of_bind ret
  cases header with
  | none =>
    cases ret
    exact ⟨level', loading⟩
  | some ph => exact loading.segment root ret

theorem elfLoad_loading {file : FileView} {entry : Nat} (wf : m.vmm.WellFormed upperHalf level) (inUse : InUse m.vmm space.pml4)
    (root : level space.pml4 = 4) (ret : elfLoad m file space = .ok (m', entry)) :
    ∃ level', Loading space m.vmm m'.vmm level level' := by
  have start : ∃ level', Loading space m.vmm m.vmm level level' := ⟨level, .refl .., wf, inUse⟩
  unfold elfLoad at ret
  split at ret
  · cases ret
    exact start
  obtain ⟨magic, -, ret⟩ := of_bind ret
  split at ret
  · cases ret
    exact start
  obtain ⟨data, -, ret⟩ := of_bind ret
  split at ret
  · cases ret
    exact start
  obtain ⟨loaded, run, ret⟩ := of_bind ret
  cases ret
  exact Outcome.forRange_kept (fun m' => ∃ level', Loading space m.vmm m'.vmm level level')
    (fun _ _ _ _ _ ⟨_, loading⟩ round => loading.entry root round) run start

end Load

end Xos.Exec
