import Xos.Lib.Radix
import Xos.Memory.PmmCount
import Xos.Memory.Vmm

/-!
# Page tables as a radix forest

The tables are nodes of four levels. An entry of a table of levels 4 to 2 leads to the table whose
frame it holds, and an entry of a table of level 1 holds the frame of a page.
-/
namespace Xos.Memory

open Word Lib Radix

def entryTable (entry : Nat) : Option Nat :=
  if entry &&& pagePresent ≠ 0 then some (physToHhdm (entry &&& pageAddrMask)) else none

def entryFrame (entry : Nat) : Option Nat :=
  if entry &&& pagePresent ≠ 0 then some (entry &&& pageAddrMask) else none

theorem entryTable_zero : entryTable 0 = none := by decide

theorem entryFrame_zero : entryFrame 0 = none := rfl

theorem and_pageAddrMask (n : Nat) : n &&& pageAddrMask = n / 2 ^ 12 % 2 ^ 40 * 2 ^ 12 := and_field n 40 12

variable {frame : Nat}

theorem and_pageAddrMask_of_frame (aligned : frame % 4096 = 0) (bound : frame < 2 ^ 52) : frame &&& pageAddrMask = frame := by
  rw [and_pageAddrMask]
  omega

theorem pagePresent_iff (entry : Nat) : entry &&& pagePresent ≠ 0 ↔ entry.testBit 0 = true := by
  rw [show pagePresent = 1 from rfl, Nat.and_one_is_mod, Nat.testBit_zero, decide_eq_true_eq]
  omega

theorem entry_of_frame {attributes : Nat} (aligned : frame % 4096 = 0) (bound : frame < 2 ^ 52)
    (present : attributes.testBit 0 = true) (apart : attributes &&& pageAddrMask = 0) :
    ((frame &&& pageAddrMask) ||| attributes) &&& pagePresent ≠ 0 ∧
      ((frame &&& pageAddrMask) ||| attributes) &&& pageAddrMask = frame := by
  refine ⟨?_, ?_⟩
  · rw [pagePresent_iff, Nat.testBit_or, present, Bool.or_true]
  · rw [Nat.and_or_distrib_right, apart, Nat.or_zero, and_pageAddrMask_of_frame aligned bound,
      and_pageAddrMask_of_frame aligned bound]

variable {phys : Nat}

theorem hhdmToPhys_physToHhdm (bound : phys < 2 ^ 64) : hhdmToPhys (physToHhdm phys) = phys := by
  rw [hhdmToPhys, physToHhdm, sub64_u64 (Nat.le_add_left _ _) (by decide), Nat.add_sub_cancel, u64_of_lt bound]

variable {a b : Nat}

theorem physToHhdm_inj (boundA : a < 2 ^ 64) (boundB : b < 2 ^ 64) (same : physToHhdm a = physToHhdm b) : a = b := by
  rw [← hhdmToPhys_physToHhdm boundA, same, hhdmToPhys_physToHhdm boundB]

theorem physToHhdm_of_lt (bound : phys < 2 ^ 47) : physToHhdm phys = phys + hhdmBase :=
  u64_of_lt (by unfold hhdmBase; omega)

/-- The frame in the entry that `vmm_map_pages` writes for an address. -/
def writtenFrame (phys flags : Nat) : Nat := (phys ||| flags) &&& pageAddrMask

theorem entryFrame_leaf (phys flags : Nat) :
    entryFrame ((phys &&& pageAddrMask) ||| flags ||| pagePresent) = some (writtenFrame phys flags) := by
  have present : ((phys &&& pageAddrMask) ||| flags ||| pagePresent) &&& pagePresent ≠ 0 := by
    rw [pagePresent_iff, Nat.testBit_or]
    simp [pagePresent]
  rw [entryFrame, if_pos present, writtenFrame, Nat.and_or_distrib_right, Nat.and_or_distrib_right,
    Nat.and_or_distrib_right, Nat.and_assoc, Nat.and_self, show pagePresent &&& pageAddrMask = 0 by decide, Nat.or_zero]

theorem writtenFrame_of_frame {flags : Nat} (aligned : phys % 4096 = 0) (bound : phys < 2 ^ 52)
    (apart : flags &&& pageAddrMask = 0) : writtenFrame phys flags = phys := by
  rw [writtenFrame, Nat.and_or_distrib_right, apart, Nat.or_zero, and_pageAddrMask_of_frame aligned bound]

theorem writtenFrame_u64 (phys flags : Nat) : writtenFrame (u64 phys) flags = writtenFrame phys flags := by
  have cut : u64 phys &&& pageAddrMask = phys &&& pageAddrMask := by
    rw [and_pageAddrMask, and_pageAddrMask]
    unfold u64
    omega
  rw [writtenFrame, writtenFrame, Nat.and_or_distrib_right, Nat.and_or_distrib_right, cut]

theorem entryTable_link (flags : Nat) (aligned : phys % 4096 = 0) (bound : phys < 2 ^ 52) :
    entryTable ((hhdmToPhys (physToHhdm phys) &&& pageAddrMask) ||| pagePresent ||| pageWritable |||
      (flags &&& pageUser)) = some (physToHhdm phys) := by
  have clear : (pagePresent ||| pageWritable ||| (flags &&& pageUser)) &&& pageAddrMask = 0 := by
    rw [Nat.and_or_distrib_right, Nat.and_assoc, show pageUser &&& pageAddrMask = 0 by decide, Nat.and_zero]
    decide
  obtain ⟨present, frame⟩ := entry_of_frame aligned bound (by simp [pagePresent]) clear
  rw [hhdmToPhys_physToHhdm (by omega), Nat.or_assoc, Nat.or_assoc, ← Nat.or_assoc pagePresent, entryTable,
    if_pos present, frame]

/-- The bits of an address that select its page: bits 12 to 47. -/
def pageOf (virt : Nat) : Nat := virt / 4096 % 2 ^ 36

def pagePath (virt : Nat) : List (Fin 512) := [pml4Index virt, pdptIndex virt, pdIndex virt]

theorem length_pagePath (virt : Nat) : (pagePath virt).length = 3 := rfl

theorem tableIndex_val (shift virt : Nat) : (tableIndex shift virt).val = virt / 2 ^ shift % 512 := by
  show (virt >>> shift) &&& (2 ^ 9 - 1) = _
  rw [and_low, Nat.shiftRight_eq_div_pow]
  rfl

theorem pagePath_eq_iff (a b : Nat) : pagePath a = pagePath b ∧ ptIndex a = ptIndex b ↔ pageOf a = pageOf b := by
  simp only [pagePath, List.cons.injEq, and_true, Fin.ext_iff, pml4Index, pdptIndex, pdIndex, ptIndex, tableIndex_val,
    pageOf]
  omega

theorem pml4Index_of_pageOf (same : pageOf a = pageOf b) : pml4Index a = pml4Index b :=
  (List.cons.inj ((pagePath_eq_iff a b).mpr same).1).1

theorem pageOf_u64 (virt : Nat) : pageOf (u64 virt) = pageOf virt := by
  unfold pageOf u64
  omega

namespace Vmm

/-- The tables are a forest on distinct frames, and the pages that the memory manager may hand out
next are outside it. Level 4 tables may have a child in common in the same, shared slot. -/
structure WellFormed (v : Vmm) (shared : Fin 512 → Prop) (level : Nat → Nat) : Prop where
  forest : Radix.Forest entryTable 4 shared v.tables level
  valid : v.pmm.Valid
  null : level 0 = 0
  frames : ∀ t, level t ≠ 0 → ∃ page, page < 2 ^ 40 ∧ t = physToHhdm (page * 4096)
  fresh : ∀ page, page < v.pmm.pageCount → v.pmm.bit page = false →
    page ≠ 0 ∧ page < 2 ^ 40 ∧ physToHhdm (page * 4096) ≠ 0 ∧ level (physToHhdm (page * 4096)) = 0

structure Tabled (v : Vmm) (shared : Fin 512 → Prop) (level : Nat → Nat) : Prop where
  forest : Radix.Forest entryTable 4 shared v.tables level
  valid : v.pmm.Valid
  null : level 0 = 0

def leafAt (v : Vmm) (root virt : Nat) : Option Nat :=
  (walk entryTable v.tables root (pagePath virt)).map fun t => v.tables t (ptIndex virt)

/-- The frame that the tables below `root` hold for the page of an address. -/
def frameAt (v : Vmm) (root virt : Nat) : Option Nat :=
  lookup entryTable entryFrame v.tables root (pagePath virt) (ptIndex virt)

variable {v v' : Vmm} {shared : Fin 512 → Prop} {level level' : Nat → Nat}

theorem WellFormed.tabled (wf : v.WellFormed shared level) : v.Tabled shared level := ⟨wf.forest, wf.valid, wf.null⟩

theorem WellFormed.allocated (wf : v.WellFormed shared level) (first count : Nat) (inside : first + count ≤ v.pmm.pageCount) :
    { v with pmm := v.pmm.allocated first count }.WellFormed shared level := by
  refine ⟨wf.forest, wf.valid.allocated inside, wf.null, wf.frames, fun page managed clear => ?_⟩
  simp only [Pmm.allocated_pageCount] at managed
  simp only [Pmm.allocated_bit, Bool.or_eq_false_iff] at clear
  exact wf.fresh page managed clear.2

theorem frameAt_eq (v : Vmm) (root virt : Nat) : v.frameAt root virt = (v.leafAt root virt).bind entryFrame := by
  rw [frameAt, lookup, leafAt, Option.bind_map]
  rfl

variable {page root : Nat}

theorem leafAt_congr (same : pageOf a = pageOf b) : v.leafAt root a = v.leafAt root b := by
  obtain ⟨path, index⟩ := (pagePath_eq_iff a b).mpr same
  rw [leafAt, path, index, leafAt]

theorem frameAt_congr (same : pageOf a = pageOf b) : v.frameAt root a = v.frameAt root b := by
  obtain ⟨path, index⟩ := (pagePath_eq_iff a b).mpr same
  rw [frameAt, path, index, frameAt]

theorem frameAt_aligned {virt : Nat} (mapped : v.frameAt root virt = some frame) : frame / 4096 * 4096 = frame := by
  rw [frameAt_eq] at mapped
  obtain ⟨entry, -, held⟩ := Option.bind_eq_some_iff.mp mapped
  unfold entryFrame at held
  split at held
  · rw [← Option.some.inj held, and_pageAddrMask]
    omega
  · cases held

variable {t : Nat}

/-- A null result of `get_table` is an entry that is not present, because no table is at null. -/
theorem Tabled.getTable (wf : v.Tabled shared level) (inner : 2 ≤ level t) (i : Fin 512) :
    (v.getTable t i = 0 ∧ entryTable (v.tables t i) = none) ∨
      (v.getTable t i ≠ 0 ∧ entryTable (v.tables t i) = some (v.getTable t i) ∧ level (v.getTable t i) + 1 = level t) := by
  unfold Vmm.getTable
  by_cases present : v.tables t i &&& pagePresent = 0
  · exact Or.inl ⟨if_neg (not_not.mpr present), if_neg (not_not.mpr present)⟩
  · have link : entryTable (v.tables t i) = some (physToHhdm (v.tables t i &&& pageAddrMask)) := if_pos present
    have below := wf.forest.child t i _ inner link
    simp only [ne_eq, present, not_false_eq_true, if_true]
    refine Or.inr ⟨fun zero => ?_, link, below⟩
    rw [zero, wf.null] at below
    omega

theorem Tabled.virtToPhys (wf : v.Tabled shared level) {space : AddressSpace} (root : level space.pml4 = 4)
    (virt : Nat) : vmmVirtToPhys v space virt =
      match v.frameAt space.pml4 virt with
      | none => 0
      | some frame => frame ||| (virt &&& 0xFFF) := by
  unfold vmmVirtToPhys frameAt pagePath
  rw [lookup_cons]
  rcases wf.getTable (show 2 ≤ level space.pml4 by omega) (pml4Index virt) with ⟨zero, gone⟩ | ⟨here, link, below⟩
  · rw [if_pos zero, gone, Option.bind_none]
  rw [if_neg here, link, Option.bind_some, lookup_cons]
  generalize v.getTable space.pml4 (pml4Index virt) = pdpt at *
  rcases wf.getTable (show 2 ≤ level pdpt by omega) (pdptIndex virt) with ⟨zero, gone⟩ | ⟨here, link, below'⟩
  · rw [if_pos zero, gone, Option.bind_none]
  rw [if_neg here, link, Option.bind_some, lookup_cons]
  generalize v.getTable pdpt (pdptIndex virt) = pd at *
  rcases wf.getTable (show 2 ≤ level pd by omega) (pdIndex virt) with ⟨zero, gone⟩ | ⟨here, link, -⟩
  · rw [if_pos zero, gone, Option.bind_none]
  rw [if_neg here, link, Option.bind_some, lookup_nil, entryFrame]
  by_cases absent : v.tables (v.getTable pd (pdIndex virt)) (ptIndex virt) &&& pagePresent = 0
  · rw [if_pos absent, if_neg (not_not.mpr absent)]
  · rw [if_neg absent, if_pos absent]

theorem Tabled.virtToPhys_of_frame (wf : v.Tabled shared level) {space : AddressSpace}
    (root : level space.pml4 = 4) {virt : Nat} (mapped : v.frameAt space.pml4 virt = some frame) :
    vmmVirtToPhys v space virt = frame + virt % 4096 := by
  have aligned := frameAt_aligned mapped
  have offset : virt &&& 0xFFF = virt % 4096 := and_low virt 12
  rw [wf.virtToPhys root, mapped]
  rw [offset]
  exact or_low (k := 12) (by omega) (Nat.mod_lt _ (by decide))

theorem wellFormed_of_blank (valid : v.pmm.Valid) (small : page < 2 ^ 40)
    (nonnull : physToHhdm (page * 4096) ≠ 0) (blank : ∀ i, v.tables (physToHhdm (page * 4096)) i = 0)
    (fresh : ∀ other, other < v.pmm.pageCount → v.pmm.bit other = false →
      other ≠ page ∧ other ≠ 0 ∧ other < 2 ^ 40 ∧ physToHhdm (other * 4096) ≠ 0) :
    v.WellFormed shared (ranked (fun _ => 0) (physToHhdm (page * 4096)) 4) := by
  have only (t : Nat) (known : ranked (fun _ => 0) (physToHhdm (page * 4096)) 4 t ≠ 0) :
      t = physToHhdm (page * 4096) := by
    by_contra differ
    exact known (ranked_of_ne differ)
  have absent (t : Nat) (i : Fin 512) (c : Nat) (inner : 2 ≤ ranked (fun _ => 0) (physToHhdm (page * 4096)) 4 t) :
      entryTable (v.tables t i) ≠ some c := by
    rw [only t (by omega), blank, entryTable_zero]
    exact (Option.some_ne_none c).symm
  refine ⟨⟨fun t => ?_, fun t i c inner link => absurd link (absent t i c inner),
    fun t i u j c inner _ link => absurd link (absent t i c inner)⟩, valid, ranked_of_ne nonnull.symm,
    fun t known => ⟨page, small, only t known⟩, fun other managed clear => ?_⟩
  · by_cases here : t = physToHhdm (page * 4096)
    · rw [here, ranked_self]
    · rw [ranked_of_ne here]
      exact Nat.zero_le _
  · obtain ⟨differ, nonzero, small', nonnull'⟩ := fresh other managed clear
    refine ⟨nonzero, small', nonnull', ranked_of_ne fun same => ?_⟩
    have frame := physToHhdm_inj (by omega) (by omega) same
    omega

theorem setEntry_self (v : Vmm) (t : Nat) (i : Fin 512) (entry : Nat) : (v.setEntry t i entry).tables t i = entry := by
  simp [setEntry]

variable {i : Fin 512}

theorem setEntry_of_ne (v : Vmm) {u : Nat} {j : Fin 512} (entry : Nat) (differ : (u, j) ≠ (t, i)) :
    (v.setEntry t i entry).tables u j = v.tables u j := by
  by_cases here : u = t
  · subst here
    have other : j ≠ i := fun same => differ (by rw [same])
    simp [setEntry, other]
  · simp [setEntry, here]

theorem clearTable_self (v : Vmm) (t : Nat) (i : Fin 512) : (v.clearTable t).tables t i = 0 := by
  simp [clearTable]

theorem clearTable_of_ne (v : Vmm) {u : Nat} (differ : u ≠ t) : (v.clearTable t).tables u = v.tables u := by
  simp [clearTable, differ]

/-- `v'` has the tables of `v` and new ones on pages that were free. -/
structure Keeps (v v' : Vmm) (level level' : Nat → Nat) : Prop where
  levels : ∀ t, level t ≠ 0 → level' t = level t
  newTables : ∀ t, level' t ≠ 0 → level t ≠ 0 ∨
    ∃ page, page < v.pmm.pageCount ∧ v.pmm.bit page = false ∧ t = physToHhdm (page * 4096)
  bits : ∀ page, v.pmm.bit page = true → v'.pmm.bit page = true
  pageCount : v'.pmm.pageCount = v.pmm.pageCount
  kernelSpace : v'.kernelSpace = v.kernelSpace

theorem Keeps.refl (v : Vmm) (level : Nat → Nat) : Keeps v v level level :=
  ⟨fun _ _ => rfl, fun _ known => Or.inl known, fun _ used => used, rfl, rfl⟩

theorem Keeps.trans {v'' : Vmm} {level'' : Nat → Nat} (a : Keeps v v' level level')
    (b : Keeps v' v'' level' level'') : Keeps v v'' level level'' := by
  refine ⟨fun t known => ?_, fun t known => ?_, fun page used => b.bits page (a.bits page used),
    b.pageCount.trans a.pageCount, b.kernelSpace.trans a.kernelSpace⟩
  · rw [b.levels t (by rwa [a.levels t known]), a.levels t known]
  · rcases b.newTables t known with old | ⟨page, bound, clear, place⟩
    · exact a.newTables t old
    · refine Or.inr ⟨page, a.pageCount ▸ bound, ?_, place⟩
      by_contra used
      rw [a.bits page (by simpa using used)] at clear
      cases clear

/-- The new tables change no translation, and of the entries of level 4 tables at most the slot
`first` of `root`, from absent to present. -/
structure Grows (root : Nat) (first : Fin 512) (v v' : Vmm) (level level' : Nat → Nat) : Prop
    extends Keeps v v' level level' where
  walks : ∀ t path n, path.length < level t → walk entryTable v.tables t path = some n →
    walk entryTable v'.tables t path = some n
  lookups : ∀ t path j, level t = path.length + 1 →
    lookup entryTable entryFrame v'.tables t path j = lookup entryTable entryFrame v.tables t path j
  tops : ∀ r j, level r = 4 → (r = root → j = first → entryTable (v.tables r j) ≠ none) →
    v'.tables r j = v.tables r j

theorem Grows.refl (root : Nat) (first : Fin 512) (v : Vmm) (level : Nat → Nat) : Grows root first v v level level :=
  ⟨.refl v level, fun _ _ _ _ walked => walked, fun _ _ _ _ => rfl, fun _ _ _ _ => rfl⟩

variable {first : Fin 512}

theorem Grows.trans {v'' : Vmm} {level'' : Nat → Nat}
    (a : Grows root first v v' level level') (b : Grows root first v' v'' level' level'') :
      Grows root first v v'' level level'' := by
  refine ⟨a.toKeeps.trans b.toKeeps, fun t path n deep walked => ?_, fun t path j deep => ?_, fun r j top present => ?_⟩
  · have same := a.levels t (by omega)
    exact b.walks t path n (by omega) (a.walks t path n deep walked)
  · have same := a.levels t (by omega)
    rw [b.lookups t path j (by omega), a.lookups t path j deep]
  · have same := a.levels r (by omega)
    have unchanged := a.tops r j top present
    rw [b.tops r j (by omega) (by rwa [unchanged]), unchanged]

theorem Grows.entry (grows : Grows root first v v' level level') {c : Nat} (inner : 2 ≤ level t)
    (link : entryTable (v.tables t i) = some c) : entryTable (v'.tables t i) = some c := by
  have walked := grows.walks t [i] c (by rw [List.length_singleton]; omega)
  rw [walk_singleton, walk_singleton] at walked
  exact walked link

/-- The memory after `get_or_create` has taken a page for a new table. -/
def linkTable (v : Vmm) (t : Nat) (i : Fin 512) (page entry : Nat) : Vmm :=
  (clearTable { v with pmm := v.pmm.allocated page 1 } (physToHhdm (page * 4096))).setEntry t i entry

section Link

variable {t page entry : Nat} {i : Fin 512} (wf : v.WellFormed shared level) (inner : 2 ≤ level t)
  (absent : entryTable (v.tables t i) = none) (managed : page < v.pmm.pageCount)
  (clear : v.pmm.bit page = false) (leads : entryTable entry = some (physToHhdm (page * 4096)))
include wf inner absent managed clear leads

theorem WellFormed.linked :
    Radix.Linked entryTable level v.tables (v.linkTable t i page entry).tables 0 t i (physToHhdm (page * 4096)) := by
  obtain ⟨-, -, -, fresh⟩ := wf.fresh page managed clear
  have apart : physToHhdm (page * 4096) ≠ t := by
    intro same
    rw [same] at fresh
    omega
  refine ⟨inner, absent, fresh, ?_, fun j => ?_, fun u j known differ => ?_⟩
  · rw [linkTable, setEntry_self, leads]
  · rw [linkTable, setEntry_of_ne _ _ (fun same => apart (Prod.mk.inj same).1), clearTable_self]
  · rw [linkTable, setEntry_of_ne _ _ differ, clearTable_of_ne]
    rintro rfl
    exact known fresh

private theorem WellFormed.link : (v.linkTable t i page entry).WellFormed shared
      (ranked level (physToHhdm (page * 4096)) (level t - 1)) := by
  have linked := wf.linked inner absent managed clear leads
  obtain ⟨-, small, nonnull, -⟩ := wf.fresh page managed clear
  refine ⟨wf.forest.link entryTable_zero linked, wf.valid.allocated (by omega), ?_, fun u known => ?_,
    fun other bound free => ?_⟩
  · rw [ranked_of_ne nonnull.symm]
    exact wf.null
  · by_cases here : u = physToHhdm (page * 4096)
    · exact ⟨page, small, here⟩
    · rw [ranked_of_ne here] at known
      exact wf.frames u known
  · have count : (v.linkTable t i page entry).pmm = v.pmm.allocated page 1 := rfl
    rw [count, Pmm.allocated_bit, Bool.or_eq_false_iff, decide_eq_false_iff_not] at free
    rw [count, Pmm.allocated_pageCount] at bound
    obtain ⟨nonzero, small', nonnull', outside⟩ := wf.fresh other bound free.2
    refine ⟨nonzero, small', nonnull', ?_⟩
    rw [ranked_of_ne, outside]
    intro same
    have frame := physToHhdm_inj (by omega) (by omega) same
    omega

theorem WellFormed.grows_link (top : level t = 4 → t = root ∧ i = first) :
    Grows root first v (v.linkTable t i page entry) level
      (ranked level (physToHhdm (page * 4096)) (level t - 1)) := by
  have linked := wf.linked inner absent managed clear leads
  refine ⟨⟨fun u known => ranked_of_level linked.fresh known, fun u known => ?_, fun other used => ?_, rfl, rfl⟩,
    fun u path n deep walked => wf.forest.walk_link linked deep walked,
    fun u path j deep => wf.forest.lookup_link entryTable_zero linked entryFrame_zero deep, fun r j high present => ?_⟩
  · by_cases here : u = physToHhdm (page * 4096)
    · exact Or.inr ⟨page, managed, clear, here⟩
    · rw [ranked_of_ne here] at known
      exact Or.inl known
  · show (v.pmm.allocated page 1).bit other = true
    rw [Pmm.allocated_bit, used, Bool.or_true]
  · refine linked.elsewhere r j (by omega) fun here => ?_
    obtain ⟨rfl, rfl⟩ := Prod.mk.inj here
    obtain ⟨rfl, rfl⟩ := top high
    exact present rfl rfl absent

end Link

/-- `get_or_create` panics only when no page is free. Otherwise the entry leads to the table that
it returns, which was there or is new. -/
theorem WellFormed.getOrCreate (wf : v.WellFormed shared level) (root : Nat) (first : Fin 512)
    (flags : Nat) (inner : 2 ≤ level t) (top : level t = 4 → t = root ∧ i = first) :
    (∃ v' level' c, v.getOrCreate t i flags = .ok (v', c) ∧ v'.WellFormed shared level' ∧
      Grows root first v v' level level' ∧ entryTable (v'.tables t i) = some c ∧ level' c + 1 = level t ∧
      v.pmm.freePages ≤ v'.pmm.freePages + 1) ∨
    (v.pmm.freePages = 0 ∧ v.getOrCreate t i flags = .error outOfMemory) := by
  unfold Vmm.getOrCreate
  by_cases present : v.tables t i &&& pagePresent ≠ 0
  · have link : entryTable (v.tables t i) = some (physToHhdm (v.tables t i &&& pageAddrMask)) := if_pos present
    exact Or.inl ⟨v, level, _, if_pos present, wf, .refl .., link, wf.forest.child t i _ inner link, Nat.le_succ _⟩
  have absent : entryTable (v.tables t i) = none := if_neg present
  simp only [if_neg present, Vmm.allocTable, bind_assoc]
  rcases pmmAllocPage_spec wf.valid with ⟨page, managed, clear, -, -, ret⟩ | ⟨full, stopped⟩
  · obtain ⟨nonzero, small, -, -⟩ := wf.fresh page managed clear
    have link := entryTable_link flags (show page * 4096 % 4096 = 0 by omega) (by omega)
    have free := Pmm.freePages_allocated managed clear
    refine Or.inl ⟨_, _, physToHhdm (page * 4096), ?_, wf.link inner absent managed clear link,
      wf.grows_link inner absent managed clear link top, ?_, ?_, ?_⟩
    · rw [ret, Outcome.ok_bind, if_neg (by omega)]
      rfl
    · exact (wf.linked inner absent managed clear link).link
    · rw [ranked_self]
      omega
    · exact free.ge
  · refine Or.inr ⟨?_, by rw [stopped, Outcome.error_bind]⟩
    rw [Pmm.freePages, Finset.card_eq_zero, Finset.filter_eq_empty_iff]
    intro page mem
    rw [full page (Finset.mem_range.mp mem)]
    decide

/-- A managed page that is no table and may be given back. -/
structure Plain (v : Vmm) (level : Nat → Nat) (page : Nat) : Prop where
  managed : page < v.pmm.pageCount
  nonzero : page ≠ 0
  small : page < 2 ^ 40
  nonnull : physToHhdm (page * 4096) ≠ 0
  outside : level (physToHhdm (page * 4096)) = 0

theorem WellFormed.plain_of_clear (wf : v.WellFormed shared level) (managed : page < v.pmm.pageCount)
    (clear : v.pmm.bit page = false) : Plain v level page := by
  obtain ⟨nonzero, small, nonnull, outside⟩ := wf.fresh page managed clear
  exact ⟨managed, nonzero, small, nonnull, outside⟩

theorem Plain.keep (plain : Plain v level page) (valid : v.pmm.Valid)
    (used : v.pmm.bit page = true) (keeps : Keeps v v' level level') : Plain v' level' page := by
  have small := plain.small
  have addressable := valid.addressable
  refine ⟨keeps.pageCount ▸ plain.managed, plain.nonzero, small, plain.nonnull, ?_⟩
  by_contra table
  rcases keeps.newTables _ table with old | ⟨other, managed, clear, place⟩
  · exact old plain.outside
  · -- a new table is on a page that was free
    have same := physToHhdm_inj (by omega) (by omega) place
    obtain rfl : page = other := by omega
    rw [used] at clear
    cases clear

theorem Plain.allocated (plain : Plain v level page) (f n : Nat) : Plain { v with pmm := v.pmm.allocated f n } level page := by
  refine ⟨?_, plain.nonzero, plain.small, plain.nonnull, plain.outside⟩
  show page < (v.pmm.allocated f n).pageCount
  rw [Pmm.allocated_pageCount]
  exact plain.managed

theorem WellFormed.released (wf : v.WellFormed shared level) (plain : Plain v level page) :
    { v with pmm := v.pmm.released page }.WellFormed shared level := by
  refine ⟨wf.forest, wf.valid.released page, wf.null, wf.frames, fun other managed clear => ?_⟩
  simp only [Pmm.released_bit, Bool.and_eq_false_iff, Bool.not_eq_false', decide_eq_true_eq] at clear
  rcases clear with rfl | clear
  · exact ⟨plain.nonzero, plain.small, plain.nonnull, plain.outside⟩
  · exact wf.fresh other managed clear

theorem Plain.released (plain : Plain v level page) (other : Nat) : Plain { v with pmm := v.pmm.released other } level page := by
  refine ⟨?_, plain.nonzero, plain.small, plain.nonnull, plain.outside⟩
  show page < (v.pmm.released other).pageCount
  rw [Pmm.released_pageCount]
  exact plain.managed

end Vmm

end Xos.Memory
