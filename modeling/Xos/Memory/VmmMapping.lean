import Xos.Memory.VmmSpec

/-!
# Mapping pages

An address space is a partial function from pages to frames. `vmm_map_pages` updates it at the pages of the range and
nowhere else.
-/
namespace Xos.Memory

open Word Lib Outcome Radix Option

namespace Vmm

variable {v v' : Vmm} {shared : Fin 512 → Prop} {level level' : Nat → Nat} {root : Nat}

/-- The space at `root` is updated by the frames of `map`, and other spaces only at those pages and
below shared slots. -/
structure Maps (shared : Fin 512 → Prop) (root : Nat) (map : Nat → Option Nat) (v v' : Vmm)
    (level level' : Nat → Nat) : Prop extends Keeps v v' level level' where
  here : ∀ virt, v'.frameAt root virt = (map (pageOf virt)).or (v.frameAt root virt)
  others : ∀ r virt, level r = 4 → r ≠ root → map (pageOf virt) = none ∨ ¬shared (pml4Index virt) →
    v'.frameAt r virt = v.frameAt r virt
  tops : ∀ r j, level r = 4 →
    (r = root → ∀ virt, pml4Index virt = j → map (pageOf virt) ≠ none → entryTable (v.tables r j) ≠ none) →
    v'.tables r j = v.tables r j

theorem Maps.refl (shared : Fin 512 → Prop) (root : Nat) (v : Vmm) (level : Nat → Nat) :
    Maps shared root (fun _ => none) v v level level :=
  ⟨.refl v level, fun _ => rfl, fun _ _ _ _ _ => rfl, fun _ _ _ _ => rfl⟩

theorem Maps.trans {v'' : Vmm} {level'' : Nat → Nat} {first second : Nat → Option Nat}
    (a : Maps shared root first v v' level level') (b : Maps shared root second v' v'' level' level'') :
    Maps shared root (fun page => (second page).or (first page)) v v'' level level'' := by
  refine ⟨a.toKeeps.trans b.toKeeps, fun virt => ?_, fun r virt top differ apart => ?_, fun r j top present => ?_⟩
  · rw [b.here, a.here, Option.or_assoc]
  · have same := a.levels r (by omega)
    rw [or_eq_none_iff] at apart
    rw [b.others r virt (by omega) differ (apart.imp_left And.left), a.others r virt top differ (apart.imp_left And.right)]
  · have same := a.levels r (by omega)
    have unchanged : v'.tables r j = v.tables r j :=
      a.tops r j top fun here virt index mapped => present here virt index (by simp [mapped])
    rw [b.tops r j (by omega), unchanged]
    intro here virt index mapped
    rw [unchanged]
    exact present here virt index (by simp [mapped])

theorem WellFormed.write (wf : v.WellFormed shared level) {t : Nat} (low : level t = 1) (i : Fin 512) (entry : Nat) :
    (v.setEntry t i entry).WellFormed shared level :=
  ⟨wf.forest.congr (inner_unchanged (fun _ _ differ => setEntry_of_ne v entry differ) low), wf.valid, wf.null,
    wf.frames, wf.fresh⟩

variable {flags n phys virt : Nat} {space : AddressSpace}

theorem WellFormed.frameAt_write (wf : v.WellFormed shared level) {t r w entry : Nat} (top : level root = 4)
    (top' : level r = 4) (walked : walk entryTable v.tables root (pagePath virt) = some t) (low : level t = 1)
    (apart : pageOf w = pageOf virt → r ≠ root ∧ ¬shared (pml4Index w)) :
    (v.setEntry t (ptIndex virt) entry).frameAt r w = v.frameAt r w := by
  refine wf.forest.lookup_write (fun _ _ differ => setEntry_of_ne v entry differ) low
    (by rw [length_pagePath]; omega) fun reached index => ?_
  obtain ⟨path, meet⟩ := wf.forest.walk_unique top' top (by rw [length_pagePath]; decide)
    ((length_pagePath w).trans (length_pagePath virt).symm) reached walked
  obtain ⟨differ, unshared⟩ := apart ((pagePath_eq_iff w virt).mp ⟨path, index⟩)
  rcases meet with same | ⟨i, rest, head, share⟩
  · exact differ same
  · obtain ⟨rfl, -⟩ := List.cons.inj head
    exact unshared share

theorem WellFormed.frameAt_write_self (wf : v.WellFormed shared level) {t w entry : Nat} (top : level root = 4)
    (walked : walk entryTable v.tables root (pagePath virt) = some t) (low : level t = 1) (same : pageOf w = pageOf virt) :
    (v.setEntry t (ptIndex virt) entry).frameAt root w = entryFrame entry := by
  rw [frameAt_congr same, frameAt, lookup,
    wf.forest.walk_congr (inner_unchanged (fun _ _ differ => setEntry_of_ne v entry differ) low)
      (by rw [length_pagePath]; omega), walked, bind_some, setEntry_self]

def single (page frame p : Nat) : Option Nat := if p = page then some frame else none

theorem WellFormed.maps_write (wf : v'.WellFormed shared level') {t entry : Nat}
    (grows : Grows root (pml4Index virt) v v' level level') (top : level root = 4)
    (walked : walk entryTable v'.tables root (pagePath virt) = some t) (frame : entryFrame entry = some phys) :
    (v'.setEntry t (ptIndex virt) entry).WellFormed shared level' ∧
      Maps shared root (single (pageOf virt) phys) v (v'.setEntry t (ptIndex virt) entry) level level' := by
  have top' : level' root = 4 := by rw [grows.levels root (by omega), top]
  have low : level' t = 1 := by
    have rank := wf.forest.level_walk (by rw [length_pagePath]; omega) walked
    rw [length_pagePath] at rank
    omega
  have same (r w : Nat) (high : level r = 4) : v'.frameAt r w = v.frameAt r w :=
    grows.lookups r (pagePath w) (ptIndex w) (by rw [length_pagePath, high])
  refine ⟨wf.write low _ entry, ⟨grows.levels, grows.newTables, grows.bits, grows.pageCount, grows.kernelSpace⟩,
    fun w => ?_, fun r w high differ apart => ?_, fun r j high present => ?_⟩
  · by_cases page : pageOf w = pageOf virt
    · rw [wf.frameAt_write_self top' walked low page, frame, single, if_pos page, some_or]
    · rw [wf.frameAt_write top' top' walked low fun same => absurd same page, same root w top, single, if_neg page,
        none_or]
  · have high' : level' r = 4 := by rw [grows.levels r (by omega), high]
    rw [wf.frameAt_write top' high' walked low, same r w high]
    intro page
    refine ⟨differ, apart.resolve_left ?_⟩
    simp [single, page]
  · have high' : level' r = 4 := by rw [grows.levels r (by omega), high]
    rw [setEntry_of_ne, grows.tops r j high]
    · intro here first
      exact present here virt first.symm (by simp [single])
    · intro slot
      obtain ⟨rfl, -⟩ := Prod.mk.inj slot
      omega

/-- The body of the loop of `vmm_map_pages` panics only when fewer than three pages are free. -/
theorem WellFormed.mapPage (wf : v.WellFormed shared level) (top : level space.pml4 = 4) (virt phys flags : Nat) :
    (∃ v' level', mapPage space flags virt phys v = .ok v' ∧ v'.WellFormed shared level' ∧
      Maps shared space.pml4 (single (pageOf virt) (writtenFrame phys flags)) v v' level level' ∧
      v.pmm.freePages ≤ v'.pmm.freePages + 3) ∨
    (v.pmm.freePages < 3 ∧ mapPage space flags virt phys v = .error outOfMemory) := by
  unfold Memory.mapPage
  rcases wf.getOrCreate space.pml4 (pml4Index virt) flags (show 2 ≤ level space.pml4 by omega) fun _ => ⟨rfl, rfl⟩ with
    ⟨v₁, level₁, pdpt, returned₁, wf₁, grows₁, link₁, below₁, free₁⟩ | ⟨none, stopped⟩
  swap
  · exact Or.inr ⟨by omega, by rw [stopped, error_bind]⟩
  simp only [returned₁, ok_bind]
  rcases wf₁.getOrCreate space.pml4 (pml4Index virt) flags (show 2 ≤ level₁ pdpt by omega) (i := pdptIndex virt)
    (fun high => by omega) with
    ⟨v₂, level₂, pd, returned₂, wf₂, grows₂, link₂, below₂, free₂⟩ | ⟨none, stopped⟩
  swap
  · exact Or.inr ⟨by omega, by rw [stopped, error_bind]⟩
  simp only [returned₂, ok_bind]
  rcases wf₂.getOrCreate space.pml4 (pml4Index virt) flags (show 2 ≤ level₂ pd by omega) (i := pdIndex virt)
    (fun high => by omega) with
    ⟨v₃, level₃, pt, returned₃, wf₃, grows₃, link₃, -, free₃⟩ | ⟨none, stopped⟩
  swap
  · exact Or.inr ⟨by omega, by rw [stopped, error_bind]⟩
  simp only [returned₃, ok_bind]
  have root₁ : level₁ space.pml4 = 4 := by rw [grows₁.levels _ (by omega), top]
  have pdpt₂ : level₂ pdpt = level₁ pdpt := grows₂.levels pdpt (by omega)
  have grows := (grows₁.trans grows₂).trans grows₃
  have walked : walk entryTable v₃.tables space.pml4 (pagePath virt) = some pt := by
    have first := (grows₂.trans grows₃).entry (by omega) link₁
    have second := grows₃.entry (by omega) link₂
    rw [pagePath, walk_cons, first, bind_some, walk_cons, second, bind_some,
      walk_singleton, link₃]
  obtain ⟨wf', maps⟩ := wf₃.maps_write grows top walked (entryFrame_leaf phys flags)
  exact Or.inl ⟨_, level₃, rfl, wf', maps, show v.pmm.freePages ≤ v₃.pmm.freePages + 3 by omega⟩

/-- The update of `n` pages from `virt` on by the frames from `phys` on, in the order of the loop. -/
def rangeMap (virt phys : Nat) : Nat → Nat → Option Nat
  | 0, _ => none
  | n + 1, page => (single (pageOf (virt + 4096 * n)) (phys + 4096 * n) page).or (rangeMap virt phys n page)

theorem rangeMap_eq_none {page : Nat} : rangeMap virt phys n page = none ↔ ∀ i, i < n → page ≠ pageOf (virt + 4096 * i) := by
  induction n with
  | zero => simp [rangeMap]
  | succ n ih =>
    rw [rangeMap, or_eq_none_iff, ih, Nat.forall_lt_succ_right, and_comm]
    simp [single]

theorem rangeMap_eq_some {page frame : Nat} (mapped : rangeMap virt phys n page = some frame) :
    ∃ i, i < n ∧ page = pageOf (virt + 4096 * i) ∧ frame = phys + 4096 * i := by
  induction n with
  | zero => cases mapped
  | succ n ih =>
    rw [rangeMap, single] at mapped
    split at mapped
    · next same => exact ⟨n, Nat.lt_succ_self n, same, (some.inj mapped).symm⟩
    · obtain ⟨i, inside, page, frame⟩ := ih mapped
      exact ⟨i, by omega, page, frame⟩

theorem rangeMap_of_last {i : Nat} (inside : i < n)
    (last : ∀ j, i < j → j < n → pageOf (virt + 4096 * i) ≠ pageOf (virt + 4096 * j)) :
    rangeMap virt phys n (pageOf (virt + 4096 * i)) = some (phys + 4096 * i) := by
  induction n with
  | zero => omega
  | succ n ih =>
    rw [rangeMap, single]
    rcases Nat.lt_succ_iff_lt_or_eq.mp inside with before | rfl
    · rw [if_neg (last n before (Nat.lt_succ_self n)), none_or,
        ih before fun j later within => last j later (by omega)]
    · rw [if_pos rfl, some_or]

theorem rangeMap_of_distinct {i : Nat} (inside : i < n)
    (distinct : ∀ j, j < n → pageOf (virt + 4096 * i) = pageOf (virt + 4096 * j) → i = j) :
    rangeMap virt phys n (pageOf (virt + 4096 * i)) = some (phys + 4096 * i) := by
  cases mapped : rangeMap virt phys n (pageOf (virt + 4096 * i)) with
  | none => exact absurd rfl (rangeMap_eq_none.mp mapped i inside)
  | some frame =>
    obtain ⟨j, inside', page, rfl⟩ := rangeMap_eq_some mapped
    rw [distinct j inside' page]

theorem pageOf_step (virt i : Nat) : pageOf (u64 (virt + u64 (i * pageSize))) = pageOf (virt + 4096 * i) := by
  rw [pageOf_u64]
  unfold pageOf u64 pageSize
  omega

/-- The frames that `vmm_map_pages` writes for the pages of a range. -/
def writtenRange (virt phys flags n page : Nat) : Option Nat :=
  (rangeMap virt phys n page).map fun frame => writtenFrame frame flags

theorem writtenRange_succ (virt phys flags n : Nat) : writtenRange virt phys flags (n + 1) = fun page =>
      (single (pageOf (virt + 4096 * n)) (writtenFrame (u64 (phys + u64 (n * pageSize))) flags) page).or
        (writtenRange virt phys flags n page) := by
  have frame : writtenFrame (u64 (phys + u64 (n * pageSize))) flags = writtenFrame (phys + 4096 * n) flags := by
    rw [writtenFrame_u64, ← writtenFrame_u64 (phys + u64 (n * pageSize)), ← writtenFrame_u64 (phys + 4096 * n)]
    congr 1
    unfold u64 pageSize
    omega
  funext page
  rw [writtenRange, rangeMap, frame]
  unfold single
  split <;> rfl

theorem exists_of_writtenRange {w : Nat} (mapped : writtenRange virt phys flags n (pageOf w) ≠ none) :
    ∃ i, i < n ∧ pageOf w = pageOf (virt + 4096 * i) := by
  rw [writtenRange, ne_eq, map_eq_none_iff, rangeMap_eq_none] at mapped
  simpa using mapped

theorem writtenRange_eq (aligned : phys % 4096 = 0) (bound : phys + 4096 * n ≤ 2 ^ 52)
    (apart : flags &&& pageAddrMask = 0) : writtenRange virt phys flags n = rangeMap virt phys n := by
  funext page
  cases mapped : rangeMap virt phys n page with
  | none => rw [writtenRange, mapped, map_none]
  | some frame =>
    obtain ⟨i, inside, -, rfl⟩ := rangeMap_eq_some mapped
    rw [writtenRange, mapped, map_some, writtenFrame_of_frame (by omega) (by omega) apart]

section

variable (wf : v.WellFormed shared level) (top : level space.pml4 = 4)
include wf top

/-- `vmm_map_pages` panics only when fewer than three pages are free for each page that it maps. -/
theorem WellFormed.mapPages_written (virt phys n flags : Nat) :
    (∃ v', vmmMapPages v space virt phys n flags = .ok v' ∧ ∃ level', v'.WellFormed shared level' ∧
      Maps shared space.pml4 (writtenRange virt phys flags n) v v' level level' ∧
      v.pmm.freePages ≤ v'.pmm.freePages + 3 * n) ∨
    ∃ stop, vmmMapPages v space virt phys n flags = .error stop ∧ stop = outOfMemory ∧ v.pmm.freePages < 3 * n := by
  have base : Maps shared space.pml4 (writtenRange virt phys flags 0) v v level level := .refl ..
  refine Outcome.forRange_rule
    (fun i v' => ∃ level', v'.WellFormed shared level' ∧
      Maps shared space.pml4 (writtenRange virt phys flags i) v v' level level' ∧
      v.pmm.freePages ≤ v'.pmm.freePages + 3 * i)
    (fun stop => stop = outOfMemory ∧ v.pmm.freePages < 3 * n) (Nat.zero_add n) (fun i v₁ _ inside => ?_)
    ⟨level, wf, base, Nat.le_refl _⟩
  rintro ⟨level₁, wf₁, maps, free⟩
  have top₁ : level₁ space.pml4 = 4 := by rw [maps.levels _ (by omega), top]
  rcases wf₁.mapPage top₁ (u64 (virt + u64 (i * pageSize))) (u64 (phys + u64 (i * pageSize))) flags with
    ⟨v₂, level₂, ret, wf₂, step, free'⟩ | ⟨few, stopped⟩
  · rw [pageOf_step] at step
    rw [writtenRange_succ]
    exact Or.inl ⟨v₂, ret, level₂, wf₂, maps.trans step, by omega⟩
  · exact Or.inr ⟨outOfMemory, stopped, rfl, by omega⟩

theorem WellFormed.mapPages_meets (virt phys n flags : Nat) : Outcome.Meets (vmmMapPages v space virt phys n flags)
      (fun v' => ∃ level', v'.WellFormed shared level' ∧ Maps shared space.pml4 (writtenRange virt phys flags n) v v' level level')
      (· = outOfMemory) := by
  rcases wf.mapPages_written top virt phys n flags with ⟨v', ret, level', wf', maps, -⟩ | ⟨stop, stopped, memory, -⟩
  · rw [ret]
    exact ⟨level', wf', maps⟩
  · rw [stopped]
    exact memory

theorem WellFormed.mapPages_ok (ret : vmmMapPages v space virt phys n flags = .ok v') :
    ∃ level', v'.WellFormed shared level' ∧ Maps shared space.pml4 (writtenRange virt phys flags n) v v' level level' := by
  have meets := wf.mapPages_meets top virt phys n flags
  rw [ret] at meets
  exact meets

theorem WellFormed.mapPages (virt : Nat) (aligned : phys % 4096 = 0) (bound : phys + 4096 * n ≤ 2 ^ 52)
    (apart : flags &&& pageAddrMask = 0) :
      (∃ v', vmmMapPages v space virt phys n flags = .ok v' ∧ ∃ level', v'.WellFormed shared level' ∧
      Maps shared space.pml4 (rangeMap virt phys n) v v' level level' ∧ v.pmm.freePages ≤ v'.pmm.freePages + 3 * n) ∨
    ∃ stop, vmmMapPages v space virt phys n flags = .error stop ∧ stop = outOfMemory ∧ v.pmm.freePages < 3 * n := by
  rw [← writtenRange_eq aligned bound apart]
  exact wf.mapPages_written top virt phys n flags

end

theorem rangeMap_byte {i : Nat} (aligned : virt % 4096 = 0) (bound : virt + 4096 * n ≤ 2 ^ 48) (inside : i < 4096 * n) :
    rangeMap virt phys n (pageOf (virt + i)) = some (phys + 4096 * (i / 4096)) := by
  have page : pageOf (virt + i) = pageOf (virt + 4096 * (i / 4096)) := by
    unfold pageOf
    omega
  rw [page]
  refine rangeMap_of_distinct (by omega) fun j within same => ?_
  unfold pageOf at same
  omega

end Vmm

/-- `vmm_map_pages` on well-formed tables: the pages of the range translate to the frames of the
range, offset by offset, and every other page of the space translates as before. It panics only
when fewer than three pages are free for each page that it maps. -/
theorem vmmMapPages_translates (v : Vmm) (shared : Fin 512 → Prop) (level : Nat → Nat) (space : AddressSpace)
    (virt phys n flags : Nat) (wf : v.WellFormed shared level) (root : level space.pml4 = 4)
    (virtAligned : virt % 4096 = 0) (physAligned : phys % 4096 = 0) (bound : phys + 4096 * n ≤ 2 ^ 52)
    (distinct : ∀ i j, i < n → j < n → pageOf (virt + 4096 * i) = pageOf (virt + 4096 * j) → i = j)
    (apart : flags &&& pageAddrMask = 0) :
    (v.pmm.freePages < 3 * n ∧ vmmMapPages v space virt phys n flags = .error outOfMemory) ∨
    ∃ v', vmmMapPages v space virt phys n flags = .ok v' ∧ (∃ level', v'.WellFormed shared level') ∧
      (∀ i off, i < n → off < 4096 →
        vmmVirtToPhys v' space (u64 (virt + 4096 * i + off)) = phys + 4096 * i + off) ∧
      ∀ w, (∀ i, i < n → pageOf w ≠ pageOf (virt + 4096 * i)) → vmmVirtToPhys v' space w = vmmVirtToPhys v space w := by
  rcases wf.mapPages root virt physAligned bound apart with
    ⟨v', returned, level', wf', maps, -⟩ | ⟨stop, stopped, rfl, few⟩
  · have root' : level' space.pml4 = 4 := by rw [maps.levels _ (by omega), root]
    refine Or.inr ⟨v', returned, ⟨level', wf'⟩, fun i off inside small => ?_, fun w outside => ?_⟩
    · have page : pageOf (u64 (virt + 4096 * i + off)) = pageOf (virt + 4096 * i) := by
        rw [pageOf_u64]
        unfold pageOf
        omega
      have frame : v'.frameAt space.pml4 (u64 (virt + 4096 * i + off)) = some (phys + 4096 * i) := by
        rw [maps.here, page, Vmm.rangeMap_of_distinct inside fun j => distinct i j inside, Option.some_or]
      rw [wf'.tabled.virtToPhys_of_frame root' frame]
      unfold u64
      omega
    · rw [wf'.tabled.virtToPhys root', wf.tabled.virtToPhys root, maps.here, Vmm.rangeMap_eq_none.mpr outside, Option.none_or]
  · exact Or.inl ⟨few, stopped⟩

def smallVmm : Vmm where
  pmm := { totalMemory := 0x8000, usedMemory := 0x2000, pageCount := 8, bitmapAddr := 0x100000,
           bitmap := fun _ => 0x03#8, bitmapSize := 1, lastIndex := 0, maxAddress := 0x7000 }
  tables := fun _ _ => 0
  kernelSpace := ⟨0x1000, physToHhdm 0x1000⟩

theorem smallVmm_wellFormed : smallVmm.WellFormed (fun _ => True) (ranked (fun _ => 0) smallVmm.kernelSpace.pml4 4) := by
  have nonnull {page : Nat} (small : page < 8) : physToHhdm (page * 4096) ≠ 0 := by
    rw [physToHhdm_of_lt (by omega)]
    unfold hhdmBase
    omega
  have small : 1 < 8 := by decide
  refine Vmm.wellFormed_of_blank ⟨by decide, by decide, by decide⟩ (by decide) (nonnull small)
    (fun _ => rfl) fun other (managed : other < 8) clear => ?_
  have high : other ≠ 0 ∧ other ≠ 1 := by
    constructor <;> rintro rfl <;> cases clear
  exact ⟨high.2, high.1, by omega, nonnull managed⟩

/-- One page is mapped, and its addresses translate. -/
theorem smallVmm_translates : ∃ v',
    vmmMapPages smallVmm smallVmm.kernelSpace 0xFFFF900000400000 0x5000 1 pageWritable = .ok v' ∧
    vmmVirtToPhys v' smallVmm.kernelSpace 0xFFFF900000400123 = 0x5123 := by
  have enough : ¬smallVmm.pmm.freePages < 3 * 1 := by decide
  rcases vmmMapPages_translates smallVmm (fun _ => True) _ smallVmm.kernelSpace 0xFFFF900000400000 0x5000 1 pageWritable
    smallVmm_wellFormed ranked_self (by decide) (by decide) (by decide) (fun i j _ _ _ => by omega) (by decide) with
    ⟨few, -⟩ | ⟨v', returned, -, translates, -⟩
  · exact absurd few enough
  · refine ⟨v', returned, ?_⟩
    have offset := translates 0 0x123 (by decide) (by decide)
    rwa [u64_of_lt (by decide)] at offset

end Xos.Memory
