import Xos.Memory.AddressSpaces
import Xos.Memory.VmmUnmap
import Xos.Syscall.Model

/-!
# What `SYS_FREE` changes

The address comes from the caller and is not looked at. The tables of the kernel half are shared, so
a range there takes mappings away from the kernel and from every process.
-/
namespace Xos.Syscall

open Memory Scheduler Lib Outcome

/-- The process `p` makes the call. -/
structure Caller (k : Kernel) (p : Nat) (process : Process) : Prop where
  current : (k.tasks k.currentTask).map Task.owner = some p
  record : k.processes p = some process

namespace Caller

variable {k : Kernel} {p : Nat} {process : Process}

section

variable (caller : Caller k p process)
include caller

theorem processCurrent_eq : processCurrent k = .ok p := by
  obtain ⟨task, found, owner⟩ := Option.map_eq_some_iff.mp caller.current
  rw [processCurrent, Kernel.task, found, ← owner]
  rfl

theorem process_eq : k.process p = .ok process := by
  rw [Kernel.process, caller.record]
  rfl

theorem retake (pmm : Pmm) : Caller (withPmm k pmm) p process :=
  ⟨caller.current, caller.record⟩

theorem sysFree_eq (vaddr size : Nat) : sysFree k vaddr size = if vaddr = 0 ∨ size = 0 then .ok k
    else vmmUnmapAndFreePages k.vmm process.addressSpace vaddr (pagesFor size) >>= fun vmm => .ok { k with vmm := vmm } := by
  rw [sysFree, caller.processCurrent_eq]
  simp only [ok_bind, caller.process_eq]
  rfl

end

end Caller

theorem unmap_frameAt {v v' : Vmm} {level : Nat → Nat} (tabled : v.Tabled upperHalf level) {space : AddressSpace}
    (top : level space.pml4 = 4) {virt n : Nat} (ret : vmmUnmapAndFreePages v space virt n = .ok v')
    (unmapped : ∀ i, i < n → upperHalf (pml4Index (virt + 4096 * i)) → v.frameAt space.pml4 (virt + 4096 * i) = none)
    {r w : Nat} (top' : level r = 4) (apart : upperHalf (pml4Index w) ∨ r ≠ space.pml4) : v'.frameAt r w = v.frameAt r w := by
  by_cases upper : upperHalf (pml4Index w)
  · rw [(tabled.unmapPages_ok top ret).2.2 _ _ top']
    split
    · next visited =>
      obtain ⟨⟨i, inside, page⟩, table⟩ := visited
      rw [Vmm.frameAt_eq, Vmm.leafAt_of_tableAt table, ← Vmm.frameAt_eq, Vmm.frameAt_congr page,
        unmapped i inside (pml4Index_of_pageOf page ▸ upper)]
    · rfl
  · exact tabled.unmapPages_other top ret top' (apart.resolve_left upper) upper

/-- `SYS_FREE` leaves the kernel half and the other address spaces alone exactly when the range has
no mapped page in the kernel half. -/
theorem sysFree_leaves_others_iff (k k' : Kernel) (level : Nat → Nat) (p : Nat) (process : Process) (vaddr size : Nat)
    (caller : Caller k p process) (tabled : k.vmm.Tabled upperHalf level) (root : level process.addressSpace.pml4 = 4)
    (returned : sysFree k vaddr size = .ok k') :
    (∀ r w, level r = 4 → upperHalf (pml4Index w) ∨ r ≠ process.addressSpace.pml4 →
      k'.vmm.frameAt r w = k.vmm.frameAt r w) ↔
    (vaddr = 0 ∨ size = 0 ∨ ∀ i, i < pagesFor size → upperHalf (pml4Index (vaddr + 4096 * i)) →
      k.vmm.frameAt process.addressSpace.pml4 (vaddr + 4096 * i) = none) := by
  rw [caller.sysFree_eq] at returned
  split at returned
  · next nothing =>
    cases returned
    exact iff_of_true (fun _ _ _ _ => rfl) (or_assoc.mp (Or.inl nothing))
  · next real =>
    obtain ⟨vmm, unmapped, result⟩ := of_bind returned
    cases result
    rw [not_or] at real
    constructor
    · intro unchanged
      refine Or.inr (Or.inr fun i inside upper => ?_)
      rw [← unchanged _ _ root (Or.inl upper)]
      rw [tabled.unmapPages_self root unmapped, if_pos ⟨i, inside, rfl⟩]
    · rintro (zero | zero | absent) r w top apart
      · exact absurd zero real.1
      · exact absurd zero real.2
      · exact unmap_frameAt tabled root unmapped absent top apart

def heapMapped : Vmm :=
  match (kernelPages zeroBytes).mapPages bootVmm kernelHeap 1 with
  | .ok (v, _) => v
  | .error _ => bootVmm

def oneProcessIn (vmm : Vmm) (space : AddressSpace) : Kernel where
  vmm := vmm
  tasks := fun t => if t = 0x20 then some ⟨1, 0, .running, 0x10, 0, 0, 0, 0x20, 0x20⟩ else none
  processes := fun p => if p = 0x10 then
      some { pid := 1, parentPid := 0, nextTaskIndex := 1, addressSpace := space, heapNext := userHeapBase,
             handles := fun _ => ⟨.none, 0⟩, exitCode := 0, mainTask := 0x20, waitingTask := 0, next := 0, prev := 0,
             firstChild := 0, nextSibling := 0 }
    else none
  channels := fun _ => none
  currentTask := 0x20
  taskList := 0x20
  idle := 0x30
  schedulerRunning := true
  nextId := 2
  firstProcess := 0x10
  lastProcess := 0x10
  nextPid := 2

def oneProcess : Kernel := oneProcessIn (heapMapped.newRoot 6) ⟨0x6000, physToHhdm 0x6000⟩

/-- The process passes the address of the kernel heap: the kernel loses the mapping. -/
theorem oneProcess_frees_kernel_heap : ∃ k', sysFree oneProcess kernelHeap 0x1000 = .ok k' ∧
    oneProcess.vmm.frameAt bootVmm.kernelSpace.pml4 kernelHeap = some 0x2000 ∧
    k'.vmm.frameAt bootVmm.kernelSpace.pml4 kernelHeap = none := by
  have run : (sysFree oneProcess kernelHeap 0x1000 >>= fun k' =>
      pure (oneProcess.vmm.frameAt bootVmm.kernelSpace.pml4 kernelHeap, k'.vmm.frameAt bootVmm.kernelSpace.pml4 kernelHeap)) =
      .ok (some 0x2000, none) := by decide +kernel
  obtain ⟨k', freed, seen⟩ := of_bind run
  obtain ⟨before, after⟩ := ok_inj seen
  exact ⟨k', freed, before, after⟩

theorem heapMapped_wellFormed : ∃ level, heapMapped.WellFormed upperHalf level ∧ level heapMapped.kernelSpace.pml4 = 4 := by
  have mapped : ((kernelPages zeroBytes).mapPages bootVmm kernelHeap 1).isOk = true := by decide +kernel
  obtain ⟨⟨v, shown⟩, ret⟩ := isOk_iff.mp mapped
  have here : heapMapped = v := by rw [heapMapped, ret]
  obtain ⟨_, level, _, _, wf, maps⟩ := bootVmm_wellFormed.kernelPages Radix.ranked_self ret
  refine ⟨level, here ▸ wf, ?_⟩
  rw [here, maps.kernelSpace]
  exact (maps.levels _ (by rw [Radix.ranked_self]; decide)).trans Radix.ranked_self

theorem oneProcess_wellFormed : ∃ level, oneProcess.vmm.WellFormed upperHalf (Radix.ranked level (physToHhdm 0x6000) 4) ∧
    Radix.ranked level (physToHhdm 0x6000) 4 bootVmm.kernelSpace.pml4 = 4 := by
  obtain ⟨level, wf, kernel⟩ := heapMapped_wellFormed
  have space : heapMapped.kernelSpace = bootVmm.kernelSpace := by decide +kernel
  have managed : 6 < heapMapped.pmm.pageCount := by decide +kernel
  refine ⟨level, wf.newRoot kernel managed (by decide +kernel), ?_⟩
  rw [← space, Radix.ranked_of_ne (by rw [space]; decide +kernel), kernel]

/-- A range of the lower half leaves the kernel heap mapped. -/
theorem oneProcess_frees_lower_half : ∃ k', sysFree oneProcess userHeapBase 0x1000 = .ok k' ∧
    k'.vmm.frameAt bootVmm.kernelSpace.pml4 kernelHeap = oneProcess.vmm.frameAt bootVmm.kernelSpace.pml4 kernelHeap := by
  obtain ⟨level, wf, kernelRoot⟩ := oneProcess_wellFormed
  obtain ⟨k', freed⟩ := isOk_iff.mp (show (sysFree oneProcess userHeapBase 0x1000).isOk = true by decide +kernel)
  have others := (sysFree_leaves_others_iff oneProcess k' _ 0x10 _ userHeapBase 0x1000 ⟨rfl, rfl⟩ wf.tabled Radix.ranked_self
    freed).mpr (Or.inr (Or.inr fun i inside upper => absurd upper ?_))
  · exact ⟨k', freed, others _ _ kernelRoot (Or.inl (by decide))⟩
  · have one : pagesFor 0x1000 = 1 := by decide +kernel
    obtain rfl : i = 0 := by omega
    decide

end Xos.Syscall
