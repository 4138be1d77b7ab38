import Xos.Lib.Pool
import Xos.Memory.HeapAlloc
import Xos.Memory.VmmMapping

/-!
# Address spaces and the kernel half

`vmm_create_address_space` copies the upper 256 top-level entries of the kernel space once. What the kernel maps later
is seen below a copied entry only.
-/
namespace Xos.Memory

open Word Lib Relation Outcome Radix Option

def upperHalf (i : Fin 512) : Prop := 256 ≤ i.val

instance : DecidablePred upperHalf := fun i => inferInstanceAs (Decidable (256 ≤ i.val))

variable {h h' : Heap Vmm}

namespace Vmm

variable {v v' : Vmm} {shared : Fin 512 → Prop} {level level' : Nat → Nat}

/-- The memory after `vmm_create_address_space` has made a root of a page. -/
def newRoot (v : Vmm) (page : Nat) : Vmm :=
  copyKernelHalf (clearTable { v with pmm := v.pmm.allocated page 1 } (physToHhdm (page * 4096)))
    (physToHhdm (page * 4096))

variable {page : Nat}

theorem newRoot_of_ne {t : Nat} (differ : t ≠ physToHhdm (page * 4096)) : (v.newRoot page).tables t = v.tables t := by
  rw [newRoot, copyKernelHalf]
  dsimp only
  rw [Function.update_of_ne differ, clearTable_of_ne _ differ]

theorem newRoot_self (kernel : v.kernelSpace.pml4 ≠ physToHhdm (page * 4096)) (i : Fin 512) :
    (v.newRoot page).tables (physToHhdm (page * 4096)) i = if upperHalf i then v.tables v.kernelSpace.pml4 i else 0 := by
  have template : (clearTable { v with pmm := v.pmm.allocated page 1 } (physToHhdm (page * 4096))).tables
      v.kernelSpace.pml4 = v.tables v.kernelSpace.pml4 := clearTable_of_ne _ kernel
  rw [newRoot, copyKernelHalf]
  dsimp only
  rw [Function.update_self, clearTable_self]
  exact congrArg (fun table : PageTable => if 256 ≤ i.val then table i else 0) template

/-- A page that was free becomes the root of a space that has the kernel half and nothing else. -/
theorem WellFormed.newRoot (wf : v.WellFormed upperHalf level) (kernel : level v.kernelSpace.pml4 = 4)
    (managed : page < v.pmm.pageCount) (clear : v.pmm.bit page = false) :
    (v.newRoot page).WellFormed upperHalf (ranked level (physToHhdm (page * 4096)) 4) := by
  obtain ⟨-, small, nonnull, outside⟩ := wf.fresh page managed clear
  have apart {t : Nat} (known : level t ≠ 0) : t ≠ physToHhdm (page * 4096) := by
    rintro rfl
    exact known outside
  have kernelApart := apart (t := v.kernelSpace.pml4) (by omega)
  have rooted : Radix.Rooted entryTable 4 upperHalf level v.tables (v.newRoot page).tables v.kernelSpace.pml4
      (physToHhdm (page * 4096)) := by
    refine ⟨kernel, outside, fun i c link => ?_, fun u j known => by rw [newRoot_of_ne (apart known)]⟩
    rw [newRoot_self kernelApart] at link
    split at link
    · next upper => exact ⟨upper, link⟩
    · rw [entryTable_zero] at link
      cases link
  have valid : (v.pmm.allocated page 1).Valid := wf.valid.allocated (by omega)
  refine ⟨wf.forest.root (by decide) rooted, valid, ?_, fun t known => ?_, fun other managed' clear' => ?_⟩
  · rw [ranked_of_ne nonnull.symm, wf.null]
  · by_cases here : t = physToHhdm (page * 4096)
    · exact ⟨page, small, here⟩
    · rw [ranked_of_ne here] at known
      exact wf.frames t known
  · replace managed' : other < (v.pmm.allocated page 1).pageCount := managed'
    replace clear' : (v.pmm.allocated page 1).bit other = false := clear'
    rw [Pmm.allocated_pageCount] at managed'
    rw [Pmm.allocated_bit, Bool.or_eq_false_iff, decide_eq_false_iff_not] at clear'
    obtain ⟨nonzero, bound, pointer, free⟩ := wf.fresh other managed' clear'.2
    refine ⟨nonzero, bound, pointer, ?_⟩
    rw [ranked_of_ne, free]
    intro same
    have := physToHhdm_inj (by omega) (by omega) same
    omega

variable {virt : Nat}

/-- What `expand_heap` does to the tables. -/
theorem WellFormed.kernelPages (wf : v.WellFormed shared level) (kernel : level v.kernelSpace.pml4 = 4)
    {contents : Vmm → Nat → Bytes} {shown : Bytes} {n : Nat} (ret : (kernelPages contents).mapPages v virt n = .ok (v', shown)) :
    ∃ f level', f + u32 n ≤ v.pmm.pageCount ∧ pmmAllocPages v.pmm n = .ok (v.pmm.allocated f (u32 n), f * 4096) ∧
      v'.WellFormed shared level' ∧ Maps shared v.kernelSpace.pml4 (writtenRange virt (f * 4096) pageWritable n)
        { v with pmm := v.pmm.allocated f (u32 n) } v' level level' := by
  unfold Memory.kernelPages at ret
  obtain ⟨⟨pmm, phys⟩, taken, ret⟩ := of_bind ret
  obtain ⟨v₁, mapped, res⟩ := of_bind ret
  obtain ⟨f, fits, -, rfl, rfl⟩ := pmmAllocPages_ok wf.valid taken
  obtain ⟨rfl, -⟩ := ok_inj res
  obtain ⟨level', wf', maps⟩ := (wf.allocated f (u32 n) fits).mapPages_ok kernel mapped
  exact ⟨f, level', fits, taken, wf', maps⟩

def Mirrors (v : Vmm) (root : Nat) : Prop := ∀ i, upperHalf i → v.tables root i = v.tables v.kernelSpace.pml4 i

def KeepsAbsent (v v' : Vmm) : Prop :=
  ∀ i, upperHalf i → entryTable (v.tables v.kernelSpace.pml4 i) = none → entryTable (v'.tables v.kernelSpace.pml4 i) = none

variable {root : Nat} {map : Nat → Option Nat}

theorem Mirrors.frameAt (mirrors : v.Mirrors root) (upper : upperHalf (pml4Index virt)) :
    v.frameAt root virt = v.frameAt v.kernelSpace.pml4 virt := by
  rw [Vmm.frameAt, pagePath, lookup_cons, mirrors _ upper, ← lookup_cons]
  rfl

theorem frameAt_isSome {frame : Nat} (mapped : v.frameAt root virt = some frame) :
    entryTable (v.tables root (pml4Index virt)) ≠ none := by
  rw [frameAt, pagePath, lookup_cons] at mapped
  intro absent
  rw [absent, bind_none] at mapped
  cases mapped

theorem Mirrors.kernelMaps (mirrors : v.Mirrors root)
    (maps : Maps upperHalf v.kernelSpace.pml4 map v v' level level') (kernel : level v.kernelSpace.pml4 = 4)
    (top : level root = 4) (differ : root ≠ v.kernelSpace.pml4) (kept : v.KeepsAbsent v') : v'.Mirrors root := by
  intro i upper
  rw [maps.kernelSpace, maps.tops root i top fun same => absurd same differ, mirrors i upper]
  refine (maps.tops _ i kernel fun _ virt index mapped absent => ?_).symm
  -- a page is mapped below the entry, so it is present afterwards
  obtain ⟨frame, some⟩ := ne_none_iff_exists'.mp mapped
  have here := maps.here virt
  rw [some, some_or] at here
  have present := frameAt_isSome here
  rw [index] at present
  exact present (kept i upper absent)

theorem Mirrors.otherMaps {other : Nat} (mirrors : v.Mirrors root)
    (maps : Maps upperHalf other map v v' level level') (kernel : level v.kernelSpace.pml4 = 4) (top : level root = 4)
    (differ : other ≠ v.kernelSpace.pml4)
      (lower : ∀ virt, map (pageOf virt) ≠ none → ¬upperHalf (pml4Index virt)) : v'.Mirrors root := by
  intro i upper
  have untouched : ∀ virt, pml4Index virt = i → map (pageOf virt) ≠ none → entryTable (v.tables root i) ≠ none :=
    fun virt index mapped => absurd (index ▸ upper) (lower virt mapped)
  rw [maps.kernelSpace, maps.tops root i top fun _ => untouched, mirrors i upper,
    maps.tops _ i kernel fun same => absurd same.symm differ]

theorem Mirrors.newRoot (mirrors : v.Mirrors root) (here : root ≠ physToHhdm (page * 4096))
    (kernel : v.kernelSpace.pml4 ≠ physToHhdm (page * 4096)) : (v.newRoot page).Mirrors root := by
  intro i upper
  show (v.newRoot page).tables root i = (v.newRoot page).tables v.kernelSpace.pml4 i
  rw [newRoot_of_ne here, newRoot_of_ne kernel, mirrors i upper]

theorem mirrors_newRoot (kernel : v.kernelSpace.pml4 ≠ physToHhdm (page * 4096)) :
    (v.newRoot page).Mirrors (physToHhdm (page * 4096)) := by
  intro i upper
  show _ = (v.newRoot page).tables v.kernelSpace.pml4 i
  rw [newRoot_self kernel, if_pos upper, newRoot_of_ne kernel]

structure Mirrored (v : Vmm) (level : Nat → Nat) (created : List AddressSpace) : Prop where
  wf : v.WellFormed upperHalf level
  kernel : level v.kernelSpace.pml4 = 4
  spaces : ∀ s ∈ created, level s.pml4 = 4 ∧ s.pml4 ≠ v.kernelSpace.pml4 ∧ v.Mirrors s.pml4

variable {created : List AddressSpace}

section

variable (mirrored : v.Mirrored level created)
include mirrored

theorem Mirrored.allocated {first count : Nat} (fits : first + count ≤ v.pmm.pageCount) :
    { v with pmm := v.pmm.allocated first count }.Mirrored level created :=
  ⟨mirrored.wf.allocated first count fits, mirrored.kernel, mirrored.spaces⟩

theorem Mirrored.kernelMaps (wf : v'.WellFormed upperHalf level')
    (maps : Maps upperHalf v.kernelSpace.pml4 map v v' level level') (kept : created = [] ∨ v.KeepsAbsent v') :
    v'.Mirrored level' created := by
  have levels {t : Nat} (top : level t = 4) : level' t = 4 := by rw [maps.levels t (by omega), top]
  refine ⟨wf, by rw [maps.kernelSpace]; exact levels mirrored.kernel, fun s mem => ?_⟩
  obtain ⟨top, differ, mirrors⟩ := mirrored.spaces s mem
  have absent := kept.resolve_left (List.ne_nil_of_mem mem)
  exact ⟨levels top, by rwa [maps.kernelSpace], mirrors.kernelMaps maps mirrored.kernel top differ absent⟩

omit mirrored in
theorem Mirrored.otherMaps {space : AddressSpace} (mirrored : v.Mirrored level created)
    (wf : v'.WellFormed upperHalf level') (maps : Maps upperHalf space.pml4 map v v' level level') (mem : space ∈ created)
    (lower : ∀ virt, map (pageOf virt) ≠ none → ¬upperHalf (pml4Index virt)) : v'.Mirrored level' created := by
  have levels {t : Nat} (top : level t = 4) : level' t = 4 := by rw [maps.levels t (by omega), top]
  obtain ⟨-, other, -⟩ := mirrored.spaces space mem
  refine ⟨wf, by rw [maps.kernelSpace]; exact levels mirrored.kernel, fun s mem => ?_⟩
  obtain ⟨top, differ, mirrors⟩ := mirrored.spaces s mem
  exact ⟨levels top, by rwa [maps.kernelSpace], mirrors.otherMaps maps mirrored.kernel top other lower⟩

theorem Mirrored.newRoot (managed : page < v.pmm.pageCount) (clear : v.pmm.bit page = false) :
    (v.newRoot page).Mirrored (ranked level (physToHhdm (page * 4096)) 4)
      (⟨page * 4096, physToHhdm (page * 4096)⟩ :: created) := by
  obtain ⟨-, -, -, outside⟩ := mirrored.wf.fresh page managed clear
  have apart {t : Nat} (top : level t = 4) : t ≠ physToHhdm (page * 4096) := by
    rintro rfl
    omega
  have kernel := apart mirrored.kernel
  refine ⟨mirrored.wf.newRoot mirrored.kernel managed clear, ?_, fun s mem => ?_⟩
  · exact (ranked_of_ne kernel).trans mirrored.kernel
  · rcases List.mem_cons.mp mem with rfl | old
    · exact ⟨ranked_self, kernel.symm, mirrors_newRoot kernel⟩
    · obtain ⟨top, differ, mirrors⟩ := mirrored.spaces s old
      exact ⟨(ranked_of_ne (apart top)).trans top, differ, mirrors.newRoot (apart top) kernel⟩

theorem Mirrored.kmalloc {contents : Vmm → Nat → Bytes} {size ptr : Nat}
    (pages : h.pages = v) (ret : h.kmalloc (Memory.kernelPages contents) size = .ok (h', ptr))
    (kept : created = [] ∨ v.KeepsAbsent h'.pages) : h'.pages.kernelSpace = v.kernelSpace ∧
      ∃ level', h'.pages.Mirrored level' created := by
  subst pages
  rcases Heap.kmalloc_grownBy ret with ⟨same, -⟩ | ⟨⟨shown, mapped⟩, -⟩
  · rw [same]
    exact ⟨rfl, level, mirrored⟩
  · obtain ⟨f, level', fits, -, wf, maps⟩ := mirrored.wf.kernelPages mirrored.kernel mapped
    exact ⟨maps.kernelSpace, level', (mirrored.allocated fits).kernelMaps wf maps kept⟩

end

end Vmm

structure SpaceLedger where
  heap : Heap Vmm
  created : List AddressSpace

/-- A space is created, or pages are mapped: in the upper half of the kernel space or in the lower
half of a created space. -/
inductive SpaceStep (contents : Vmm → Nat → Bytes) : SpaceLedger → SpaceLedger → Prop
  | create {h h' : Heap Vmm} {created : List AddressSpace} {space : Option AddressSpace}
      (returned : vmmCreateAddressSpace contents h = .ok (h', space)) :
      SpaceStep contents ⟨h, created⟩ ⟨h', space.toList ++ created⟩
  | mapKernel {h : Heap Vmm} {v : Vmm} {created : List AddressSpace} {virt phys n flags : Nat}
      (upper : ∀ i, i < n → upperHalf (pml4Index (virt + 4096 * i)))
      (returned : vmmMapPages h.pages h.pages.kernelSpace virt phys n flags = .ok v) :
      SpaceStep contents ⟨h, created⟩ ⟨{ h with pages := v }, created⟩
  | mapProcess {h : Heap Vmm} {v : Vmm} {created : List AddressSpace} {space : AddressSpace} {virt phys n flags : Nat}
      (member : space ∈ created) (lower : ∀ i, i < n → ¬upperHalf (pml4Index (virt + 4096 * i)))
      (returned : vmmMapPages h.pages space virt phys n flags = .ok v) :
      SpaceStep contents ⟨h, created⟩ ⟨{ h with pages := v }, created⟩

/-- A step that makes no top-level entry of the kernel half present once there are other spaces. -/
def SettledStep (contents : Vmm → Nat → Bytes) (l l' : SpaceLedger) : Prop :=
  SpaceStep contents l l' ∧ (l.created = [] ∨ l.heap.pages.KeepsAbsent l'.heap.pages)

variable {contents : Vmm → Nat → Bytes}

theorem vmmCreateAddressSpaceOn_ok {v v' : Vmm} {space : AddressSpace} (valid : v.pmm.Valid)
    (ret : vmmCreateAddressSpaceOn v = .ok (v', space)) : ∃ page, page < v.pmm.pageCount ∧ v.pmm.bit page = false ∧
      v' = v.newRoot page ∧ space = ⟨page * 4096, physToHhdm (page * 4096)⟩ := by
  obtain ⟨⟨pmm, phys⟩, taken, res⟩ := of_bind ret
  obtain ⟨page, managed, clear, rfl, rfl⟩ := pmmAllocPage_ok valid taken
  cases res
  exact ⟨page, managed, clear, rfl, rfl⟩

theorem vmmCreateAddressSpace_ok {space : Option AddressSpace}
    (ret : vmmCreateAddressSpace contents h = .ok (h', space)) :
    ∃ h₁ ptr, h.kmalloc (kernelPages contents) addressSpaceSize = .ok (h₁, ptr) ∧
      (h' = h₁ ∧ space = none ∨ (h₁.pages.pmm.Valid → ∃ page, page < h₁.pages.pmm.pageCount ∧
        h₁.pages.pmm.bit page = false ∧ h' = { h₁ with pages := h₁.pages.newRoot page } ∧
        space = some ⟨page * 4096, physToHhdm (page * 4096)⟩)) := by
  obtain ⟨⟨h₁, ptr⟩, block, ret⟩ := of_bind ret
  refine ⟨h₁, ptr, block, ?_⟩
  dsimp only at ret
  split at ret
  · cases ret
    exact Or.inl ⟨rfl, rfl⟩
  · refine Or.inr fun valid => ?_
    obtain ⟨⟨v, space⟩, created, res⟩ := of_bind ret
    obtain ⟨page, managed, clear, rfl, rfl⟩ := vmmCreateAddressSpaceOn_ok valid created
    cases res
    exact ⟨page, managed, clear, rfl, rfl⟩

def SpaceLedger.Settled (l : SpaceLedger) : Prop := ∃ level, l.heap.pages.Mirrored level l.created

theorem settled_create {created : List AddressSpace}
    {space : Option AddressSpace} (settled : SpaceLedger.Settled ⟨h, created⟩)
    (ret : vmmCreateAddressSpace contents h = .ok (h', space))
    (kept : created = [] ∨ h.pages.KeepsAbsent h'.pages) : SpaceLedger.Settled ⟨h', space.toList ++ created⟩ := by
  obtain ⟨level, mirrored⟩ := settled
  obtain ⟨h₁, ptr, block, res⟩ := vmmCreateAddressSpace_ok ret
  rcases res with ⟨rfl, rfl⟩ | made
  · exact (mirrored.kmalloc rfl block kept).2
  · -- the heap may have grown before the new root was taken
    have alone : h.pages.Mirrored level [] := ⟨mirrored.wf, mirrored.kernel, by simp⟩
    obtain ⟨same, level₁, grown⟩ := alone.kmalloc rfl block (Or.inl rfl)
    obtain ⟨page, managed, clear, rfl, rfl⟩ := made grown.wf.valid
    have kernel : h.pages.kernelSpace.pml4 ≠ physToHhdm (page * 4096) := by
      intro here
      have top := grown.kernel
      rw [same, here, (grown.wf.fresh page managed clear).2.2.2] at top
      cases top
    have kept₁ : created = [] ∨ h.pages.KeepsAbsent h₁.pages := kept.imp_right fun absent i upper none => by
      have later := absent i upper none
      rwa [Vmm.newRoot_of_ne kernel] at later
    obtain ⟨-, level₂, mirrored₂⟩ := mirrored.kmalloc rfl block kept₁
    exact ⟨_, mirrored₂.newRoot managed clear⟩

theorem settled_step {l l' : SpaceLedger} (settled : l.Settled) (step : SettledStep contents l l') : l'.Settled := by
  obtain ⟨step, kept⟩ := step
  cases step with
  | create ret => exact settled_create settled ret kept
  | @mapKernel h v created virt phys n flags upper ret =>
    obtain ⟨level, mirrored⟩ := settled
    obtain ⟨level', wf, maps⟩ := mirrored.wf.mapPages_ok mirrored.kernel ret
    exact ⟨level', mirrored.kernelMaps wf maps kept⟩
  | @mapProcess h v created space virt phys n flags mem lower ret =>
    obtain ⟨level, mirrored⟩ := settled
    obtain ⟨top, -, -⟩ := mirrored.spaces space mem
    obtain ⟨level', wf, maps⟩ := mirrored.wf.mapPages_ok top ret
    refine ⟨level', mirrored.otherMaps wf maps mem fun w mapped => ?_⟩
    obtain ⟨i, inside, page⟩ := Vmm.exists_of_writtenRange mapped
    rw [pml4Index_of_pageOf page]
    exact lower i inside

/-- Each created space translates every address of the upper half as the kernel space does, in every
run that makes no top-level entry of the kernel half present once there are other spaces. -/
theorem created_spaces_mirror_kernel (contents : Vmm → Nat → Bytes) (start l : SpaceLedger) (level : Nat → Nat)
    (wf : start.heap.pages.WellFormed upperHalf level) (kernel : level start.heap.pages.kernelSpace.pml4 = 4)
    (none : start.created = []) (run : ReflTransGen (SettledStep contents) start l) :
    ∀ s ∈ l.created, ∀ virt, upperHalf (pml4Index virt) →
      vmmVirtToPhys l.heap.pages s virt = vmmVirtToPhys l.heap.pages l.heap.pages.kernelSpace virt := by
  intro s member virt upper
  have initial : start.Settled := ⟨level, wf, kernel, by simp [none]⟩
  obtain ⟨level', mirrored⟩ := invariant_of_run SpaceLedger.Settled (fun _ _ => settled_step) run initial
  obtain ⟨top, -, mirrors⟩ := mirrored.spaces s member
  rw [mirrored.wf.tabled.virtToPhys top, mirrored.wf.tabled.virtToPhys mirrored.kernel, mirrors.frameAt upper]

def blankVmm (pageCount : Nat) : Vmm where
  pmm := { totalMemory := pageCount * 4096, usedMemory := 0x2000, pageCount := pageCount, bitmapAddr := 0x100000,
           bitmap := fun i => if i = 0 then 0x03#8 else 0, bitmapSize := pageCount / 8, lastIndex := 0,
           maxAddress := (pageCount - 1) * 4096 }
  tables := fun _ _ => 0
  kernelSpace := ⟨0x1000, physToHhdm 0x1000⟩

theorem blankVmm_bit (pageCount page : Nat) : (blankVmm pageCount).pmm.bit page = decide (page < 2) := by
  show (if page / 8 = 0 then 0x03#8 else 0).getLsbD (page % 8) = _
  split
  · next low =>
    have first : ∀ q < 8, (0x03#8).getLsbD (q % 8) = decide (q < 2) := by decide
    exact first page (by omega)
  · next high =>
    rw [BitVec.ofNat_eq_ofNat, BitVec.getLsbD_zero, eq_comm, decide_eq_false_iff_not]
    omega

theorem blankVmm_wellFormed (shared : Fin 512 → Prop) {pageCount : Nat} (whole : pageCount % 8 = 0) (bound : pageCount ≤ 2 ^ 34) :
    (blankVmm pageCount).WellFormed shared (ranked (fun _ => 0) (physToHhdm 0x1000) 4) := by
  have nonnull {page : Nat} (small : page < 2 ^ 34) : physToHhdm (page * 4096) ≠ 0 := by
    rw [physToHhdm_of_lt (by omega)]
    unfold hhdmBase
    omega
  have valid : (blankVmm pageCount).pmm.Valid := by
    refine ⟨Nat.zero_le _, ?_, ?_⟩
    · show pageCount ≤ 8 * (pageCount / 8)
      omega
    · show pageCount ≤ 2 ^ 52
      omega
  have small : 1 < 2 ^ 34 := by decide
  refine Vmm.wellFormed_of_blank valid (by decide) (nonnull small) (fun _ => rfl) fun other managed clear => ?_
  rw [blankVmm_bit, decide_eq_false_iff_not] at clear
  replace managed : other < pageCount := managed
  exact ⟨by omega, by omega, by omega, nonnull (by omega)⟩

def bootVmm : Vmm := blankVmm 32

def zeroBytes : Vmm → Nat → Bytes := fun _ _ _ => 0

/-- A space is created, and the kernel then maps a page below an entry that was absent: the kernel
space translates its address and the created space does not. -/
theorem late_kernel_mapping_unseen : ∃ h l s,
    heapInit (kernelPages zeroBytes) bootVmm (fun _ => 0) = .ok h ∧
    ReflTransGen (SpaceStep zeroBytes) ⟨h, []⟩ l ∧ s ∈ l.created ∧
    vmmVirtToPhys l.heap.pages l.heap.pages.kernelSpace 0xFFFFD00000000000 = 0x5000 ∧
    vmmVirtToPhys l.heap.pages s 0xFFFFD00000000000 = 0 := by
  have run : (heapInit (kernelPages zeroBytes) bootVmm (fun _ => 0) >>= fun h =>
      vmmCreateAddressSpace zeroBytes h >>= fun (h, space) =>
      vmmMapPages h.pages h.pages.kernelSpace 0xFFFFD00000000000 0x5000 1 pageWritable >>= fun v =>
      pure (space.map fun s => vmmVirtToPhys v s 0xFFFFD00000000000,
        vmmVirtToPhys v v.kernelSpace 0xFFFFD00000000000)) = .ok (some 0, 0x5000) := by decide +kernel
  obtain ⟨h, ⟨h₁, space⟩, started, created, rest⟩ := of_bind₂ run
  obtain ⟨v, mapped, seen⟩ := of_bind rest
  simp only [ok_pair, Option.map_eq_some_iff] at seen
  obtain ⟨⟨s, rfl, unseen⟩, shown⟩ := seen
  have steps : ReflTransGen (SpaceStep zeroBytes) ⟨h, []⟩ ⟨{ h₁ with pages := v }, [s]⟩ :=
    .tail (.single (.create created)) (.mapKernel (fun i inside => by
      obtain rfl : i = 0 := by omega
      decide) mapped)
  exact ⟨h, _, s, started, steps, List.mem_singleton_self s, shown, unseen⟩

theorem bootVmm_wellFormed : bootVmm.WellFormed upperHalf (ranked (fun _ => 0) bootVmm.kernelSpace.pml4 4) :=
  blankVmm_wellFormed upperHalf (by decide) (by decide)

/-- A space is created, and the first page of the heap is in it. -/
theorem created_space_has_heap : ∃ h l s,
    heapInit (kernelPages zeroBytes) bootVmm (fun _ => 0) = .ok h ∧
    ReflTransGen (SettledStep zeroBytes) ⟨h, []⟩ l ∧ s ∈ l.created ∧
    vmmVirtToPhys l.heap.pages s kernelHeap = vmmVirtToPhys l.heap.pages l.heap.pages.kernelSpace kernelHeap ∧
    vmmVirtToPhys l.heap.pages l.heap.pages.kernelSpace kernelHeap = 0x2000 := by
  have run : (heapInit (kernelPages zeroBytes) bootVmm (fun _ => 0) >>= fun h =>
      vmmCreateAddressSpace zeroBytes h >>= fun (h, space) =>
      pure (space.isSome, vmmVirtToPhys h.pages h.pages.kernelSpace kernelHeap)) = .ok (true, 0x2000) := by decide +kernel
  obtain ⟨h, ⟨h₁, space⟩, started, created, seen⟩ := of_bind₂ run
  simp only [ok_pair, Option.isSome_iff_exists] at seen
  obtain ⟨⟨s, rfl⟩, shown⟩ := seen
  obtain ⟨contents, mapped⟩ := Heap.heapInit_pages started
  obtain ⟨f, level, -, -, wf, maps⟩ := bootVmm_wellFormed.kernelPages ranked_self mapped
  have kernel : level h.pages.kernelSpace.pml4 = 4 := by
    rw [maps.kernelSpace]
    exact (maps.levels _ (by rw [ranked_self]; decide)).trans ranked_self
  have steps : ReflTransGen (SettledStep zeroBytes) ⟨h, []⟩ ⟨h₁, [s]⟩ := .single ⟨.create created, Or.inl rfl⟩
  refine ⟨h, _, s, started, steps, List.mem_singleton_self s, ?_, shown⟩
  exact created_spaces_mirror_kernel zeroBytes _ _ level wf kernel rfl steps s (List.mem_singleton_self s) kernelHeap
    (by decide)

end Xos.Memory
