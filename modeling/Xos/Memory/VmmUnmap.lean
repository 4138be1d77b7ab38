import Xos.Memory.VmmMapping

/-!
# Unmapping pages

`vmm_unmap_and_free_pages` does not look at the present bit, so the entry of a page that is not mapped is taken for
frame 0. The entry belongs to every space that reaches the table.
-/
namespace Xos.Memory

open Word Lib Outcome Option

def entryPage (entry : Nat) : Nat := (entry &&& pageAddrMask) / 4096

theorem entryPage_mul (entry : Nat) : entryPage entry * 4096 = entry &&& pageAddrMask := by
  rw [entryPage, and_pageAddrMask]
  omega

theorem entryFrame_eq_some {entry page : Nat} :
    entryFrame entry = some (page * 4096) ↔ entryFrame entry ≠ none ∧ page = entryPage entry := by
  have frame := entryPage_mul entry
  unfold entryFrame
  split
  · rw [some.injEq, ← frame]
    simp only [ne_eq, reduceCtorEq, not_false_eq_true, true_and]
    omega
  · simp

namespace Vmm

variable {v v' : Vmm} {shared : Fin 512 → Prop} {level : Nat → Nat} {root : Nat}

def tableAt (v : Vmm) (root virt : Nat) : Option Nat := Radix.walk entryTable v.tables root (pagePath virt)

theorem tableAt_congr {a b : Nat} (same : pageOf a = pageOf b) : v.tableAt root a = v.tableAt root b := by
  rw [tableAt, ((pagePath_eq_iff a b).mpr same).1, tableAt]

variable {n virt : Nat} {space : AddressSpace}

variable {r : Nat}

theorem leafAt_of_tableAt (same : v.tableAt r virt = v.tableAt root virt) :
    v.leafAt r virt = v.leafAt root virt := congrArg (Option.map fun t => v.tables t (ptIndex virt)) same

section

variable (tabled : v.Tabled shared level) (top : level space.pml4 = 4)
include tabled top

theorem Tabled.unmapPage_eq (virt : Nat) : unmapAndFreePage space virt v =
      match v.tableAt space.pml4 virt with
      | none => .ok v
      | some t => pmmFreePage v.pmm (v.tables t (ptIndex virt) &&& pageAddrMask) >>= fun pmm =>
          pure (setEntry { v with pmm := pmm } t (ptIndex virt) 0) := by
  unfold unmapAndFreePage tableAt pagePath
  rw [Radix.walk_cons]
  rcases tabled.getTable (show 2 ≤ level space.pml4 by omega) (pml4Index virt) with ⟨zero, gone⟩ | ⟨here, link, below⟩
  · rw [if_pos zero, gone]
    rfl
  rw [if_neg here, link, bind_some, Radix.walk_cons]
  generalize v.getTable space.pml4 (pml4Index virt) = pdpt at *
  rcases tabled.getTable (show 2 ≤ level pdpt by omega) (pdptIndex virt) with ⟨zero, gone⟩ | ⟨here, link, below'⟩
  · rw [if_pos zero, gone]
    rfl
  rw [if_neg here, link, bind_some, Radix.walk_singleton]
  generalize v.getTable pdpt (pdptIndex virt) = pd at *
  rcases tabled.getTable (show 2 ≤ level pd by omega) (pdIndex virt) with ⟨zero, gone⟩ | ⟨here, link, -⟩
  · rw [if_pos zero, gone]
    rfl
  · rw [if_neg here, link]

structure UnmapsPage (shared : Fin 512 → Prop) (level : Nat → Nat) (root virt : Nat) (v v' : Vmm) : Prop where
  tabled : v'.Tabled shared level
  kernelSpace : v'.kernelSpace = v.kernelSpace
  pageCount : v'.pmm.pageCount = v.pmm.pageCount
  inner : ∀ t i, 2 ≤ level t → v'.tables t i = v.tables t i
  freed : ∀ entry, v.leafAt root virt = some entry →
    entryPage entry < v.pmm.pageCount ∧ v.pmm.bit (entryPage entry) = true
  bits : ∀ page, v'.pmm.bit page = true ↔
    v.pmm.bit page = true ∧ ∀ entry, v.leafAt root virt = some entry → page ≠ entryPage entry
  leaves : ∀ r w, level r = 4 → v'.leafAt r w =
    if pageOf w = pageOf virt ∧ v.tableAt r w = v.tableAt root w then (v.leafAt r w).map fun _ => 0 else v.leafAt r w

omit tabled top in
theorem UnmapsPage.tableAt (step : UnmapsPage shared level root virt v v') (tabled : v.Tabled shared level)
    (top : level r = 4) (w : Nat) : v'.tableAt r w = v.tableAt r w :=
  tabled.forest.walk_congr step.inner (by rw [length_pagePath]; omega)

omit tabled top in
theorem clear_inner {t : Nat} (pmm : Pmm) (i : Fin 512) (low : level t = 1) (u : Nat) (j : Fin 512)
    (inner : 2 ≤ level u) : (setEntry { v with pmm := pmm } t i 0).tables u j = v.tables u j :=
  Radix.inner_unchanged (fun _ _ differ => setEntry_of_ne { v with pmm := pmm } 0 differ) low u j inner

omit tabled top in
/-- Clearing an entry of the last table of a page, for every space. -/
theorem Tabled.leafAt_clear (tabled : v.Tabled shared level) {t : Nat} (pmm : Pmm) (top : level root = 4)
    (top' : level r = 4) (walked : v.tableAt root virt = some t) (low : level t = 1) (w : Nat) :
    (setEntry { v with pmm := pmm } t (ptIndex virt) 0).leafAt r w =
      if pageOf w = pageOf virt ∧ v.tableAt r w = v.tableAt root w then (v.leafAt r w).map fun _ => 0
      else v.leafAt r w := by
  have elsewhere (u j) (differ : (u, j) ≠ (t, ptIndex virt)) :
      (setEntry { v with pmm := pmm } t (ptIndex virt) 0).tables u j = v.tables u j :=
    setEntry_of_ne { v with pmm := pmm } 0 differ
  have kept : (setEntry { v with pmm := pmm } t (ptIndex virt) 0).tableAt r w = v.tableAt r w :=
    tabled.forest.walk_congr (clear_inner pmm _ low) (by rw [length_pagePath]; omega)
  rw [leafAt, ← Vmm.tableAt, kept]
  split
  · next same =>
    obtain ⟨page, table⟩ := same
    have here : v.tableAt r w = some t := by rw [table, tableAt_congr page, walked]
    rw [here, leafAt, ← Vmm.tableAt, here, ((pagePath_eq_iff w virt).mpr page).2]
    simp only [map_some, setEntry_self]
  · next differ =>
    rw [leafAt, ← Vmm.tableAt]
    cases reached : v.tableAt r w with
    | none => rfl
    | some u =>
      refine congrArg some (elsewhere u (ptIndex w) fun slot => differ ?_)
      obtain ⟨rfl, index⟩ := Prod.mk.inj slot
      obtain ⟨path, -⟩ := tabled.forest.walk_unique top' top (by rw [length_pagePath]; decide)
        ((length_pagePath w).trans (length_pagePath virt).symm) reached walked
      have page := (pagePath_eq_iff w virt).mp ⟨path, index⟩
      exact ⟨page, by rw [reached, tableAt_congr page, walked]⟩

theorem Tabled.unmapPage (ret : unmapAndFreePage space virt v = .ok v') :
    UnmapsPage shared level space.pml4 virt v v' := by
  rw [tabled.unmapPage_eq top] at ret
  cases walked : v.tableAt space.pml4 virt with
  | none =>
    rw [walked] at ret
    cases ret
    have leaf : v.leafAt space.pml4 virt = none := by rw [leafAt, ← Vmm.tableAt, walked, map_none]
    refine ⟨tabled, rfl, rfl, fun _ _ _ => rfl, by simp [leaf], by simp [leaf], fun r w _ => ?_⟩
    split
    · next same => rw [leafAt, ← Vmm.tableAt, same.2, tableAt_congr same.1, walked, map_none, map_none]
    · rfl
  | some t =>
    rw [walked] at ret
    obtain ⟨pmm, accepted, res⟩ := of_bind ret
    obtain ⟨-, managed, used, rfl⟩ := (pmmFreePage_ok_iff tabled.valid _).mp accepted
    cases res
    have leaf : v.leafAt space.pml4 virt = some (v.tables t (ptIndex virt)) := by
      rw [leafAt, ← Vmm.tableAt, walked, map_some]
    have low : level t = 1 := by
      have rank := tabled.forest.level_walk (by rw [length_pagePath]; omega) walked
      rw [length_pagePath] at rank
      omega
    have inner := clear_inner (v := v) (v.pmm.released (entryPage (v.tables t (ptIndex virt)))) (ptIndex virt) low
    refine ⟨⟨tabled.forest.congr inner, tabled.valid.released _, tabled.null⟩, rfl, v.pmm.released_pageCount _, inner,
      fun entry here => ?_, fun page => ?_, fun r w top' => tabled.leafAt_clear _ top top' walked low w⟩
    · obtain rfl := mem_unique leaf here
      exact ⟨managed, used⟩
    · show (v.pmm.released _).bit page = true ↔ _
      rw [Pmm.released_bit, leaf]
      simp [entryPage, and_comm]

theorem Tabled.unmapPage_returns
    (used : ∀ entry, v.leafAt space.pml4 virt = some entry →
      entryPage entry < v.pmm.pageCount ∧ v.pmm.bit (entryPage entry) = true) :
    ∃ v', unmapAndFreePage space virt v = .ok v' := by
  rw [tabled.unmapPage_eq top]
  cases walked : v.tableAt space.pml4 virt with
  | none => exact ⟨v, rfl⟩
  | some t =>
    obtain ⟨managed, inUse⟩ := used (v.tables t (ptIndex virt)) (by rw [leafAt, ← Vmm.tableAt, walked, map_some])
    have aligned : (v.tables t (ptIndex virt) &&& pageAddrMask) % 4096 = 0 := by
      rw [← entryPage_mul]
      omega
    have accepted := (pmmFreePage_ok_iff tabled.valid _).mpr ⟨aligned, managed, inUse, rfl⟩
    exact ⟨_, by simp only [accepted, ok_bind]; rfl⟩

omit tabled top in
theorem UnmapsPage.congr {a b : Nat} (same : pageOf a = pageOf b) (step : UnmapsPage shared level root a v v') :
    UnmapsPage shared level root b v v' :=
  ⟨step.tabled, step.kernelSpace, step.pageCount, step.inner, leafAt_congr same ▸ step.freed,
    leafAt_congr same ▸ step.bits, same ▸ step.leaves⟩

theorem Tabled.unmapPages_trace
    (ret : vmmUnmapAndFreePages v space virt n = .ok v') : ∃ trace : Nat → Vmm, trace 0 = v ∧ trace n = v' ∧
      ∀ i, i < n → UnmapsPage shared level space.pml4 (virt + 4096 * i) (trace i) (trace (i + 1)) := by
  obtain ⟨trace, start, finish, steps⟩ := Outcome.forRange_trace ret
  rw [Nat.zero_add] at finish steps
  have step (i : Nat) (inside : i < n) (before : (trace i).Tabled shared level) :
      UnmapsPage shared level space.pml4 (virt + 4096 * i) (trace i) (trace (i + 1)) :=
    (before.unmapPage top (steps i (Nat.zero_le i) inside)).congr (pageOf_step virt i)
  have all (i : Nat) (inside : i ≤ n) : (trace i).Tabled shared level := by
    induction i with
    | zero => rwa [start]
    | succ i ih => exact (step i inside (ih (by omega))).tabled
  exact ⟨trace, start, finish, fun i inside => step i inside (all i (by omega))⟩

end

section Trace

variable {trace : Nat → Vmm} {virt n : Nat} (tabled : (trace 0).Tabled shared level)
  (steps : ∀ i, i < n → UnmapsPage shared level root (virt + 4096 * i) (trace i) (trace (i + 1)))

include tabled steps

variable {i : Nat}

theorem trace_tabled (inside : i ≤ n) : (trace i).Tabled shared level := by
  cases i with
  | zero => exact tabled
  | succ i => exact (steps i inside).tabled

theorem trace_tableAt (inside : i ≤ n) (top : level r = 4) (w : Nat) : (trace i).tableAt r w = (trace 0).tableAt r w := by
  induction i with
  | zero => rfl
  | succ i ih => rw [(steps i inside).tableAt (trace_tabled tabled steps (by omega)) top w, ih (by omega)]

theorem trace_leafAt (inside : i ≤ n) (top : level r = 4) (top' : level root = 4) (w : Nat) : (trace i).leafAt r w =
      if (∃ j, j < i ∧ pageOf w = pageOf (virt + 4096 * j)) ∧ (trace 0).tableAt r w = (trace 0).tableAt root w then
        ((trace 0).leafAt r w).map fun _ => 0
      else (trace 0).leafAt r w := by
  induction i with
  | zero => simp
  | succ i ih =>
    have before : i ≤ n := by omega
    rw [(steps i inside).leaves r w top, trace_tableAt tabled steps before top,
      trace_tableAt tabled steps before top', ih before]
    simp only [Nat.exists_lt_succ_right]
    by_cases table : (trace 0).tableAt r w = (trace 0).tableAt root w
    · by_cases seen : ∃ j, j < i ∧ pageOf w = pageOf (virt + 4096 * j)
      · -- clearing twice is clearing once
        simp [table, seen, Function.comp_def]
      · simp [table, seen]
    · simp only [table, and_false, if_false]

omit tabled in
theorem trace_pageCount (inside : i ≤ n) : (trace i).pmm.pageCount = (trace 0).pmm.pageCount := by
  induction i with
  | zero => rfl
  | succ i ih => rw [(steps i inside).pageCount, ih (by omega)]

omit tabled in
theorem trace_bit {page : Nat} (inside : i ≤ n) : (trace i).pmm.bit page = true ↔
    (trace 0).pmm.bit page = true ∧ ∀ j, j < i → ∀ entry,
      (trace j).leafAt root (virt + 4096 * j) = some entry → page ≠ entryPage entry := by
  induction i with
  | zero => simp
  | succ i ih =>
    rw [(steps i inside).bits, ih (by omega), Nat.forall_lt_succ_right, and_assoc]

omit tabled in
theorem trace_freed_once {j first second : Nat} (order : i < j) (inside : j < n)
    (left : (trace i).leafAt root (virt + 4096 * i) = some first)
    (right : (trace j).leafAt root (virt + 4096 * j) = some second) : entryPage first ≠ entryPage second := by
  intro same
  have used := ((steps j inside).freed second right).2
  exact ((trace_bit steps (by omega)).mp used).2 i order first left same.symm

end Trace

section

variable (tabled : v.Tabled shared level) (top : level space.pml4 = 4) (ret : vmmUnmapAndFreePages v space virt n = .ok v')
include tabled top ret

theorem Tabled.unmapPages_ok : v'.Tabled shared level ∧ v'.pmm.pageCount = v.pmm.pageCount ∧ ∀ r w, level r = 4 → v'.frameAt r w =
      if (∃ i, i < n ∧ pageOf w = pageOf (virt + 4096 * i)) ∧ v.tableAt r w = v.tableAt space.pml4 w then none
      else v.frameAt r w := by
  obtain ⟨trace, rfl, rfl, steps⟩ := tabled.unmapPages_trace top ret
  refine ⟨trace_tabled tabled steps (Nat.le_refl n), trace_pageCount steps (Nat.le_refl n), fun r w top' => ?_⟩
  rw [frameAt_eq, trace_leafAt tabled steps (Nat.le_refl n) top' top, frameAt_eq]
  split
  · cases (trace 0).leafAt r w with
    | none => rfl
    | some entry => rw [map_some, bind_some, entryFrame_zero]
  · rfl

theorem Tabled.unmapPages_self (w : Nat) : v'.frameAt space.pml4 w =
      if ∃ i, i < n ∧ pageOf w = pageOf (virt + 4096 * i) then none else v.frameAt space.pml4 w := by
  rw [(tabled.unmapPages_ok top ret).2.2 _ _ top]
  simp only [and_true]

theorem Tabled.unmapPages_other {w : Nat} (top' : level r = 4)
    (differ : r ≠ space.pml4) (unshared : ¬shared (pml4Index w)) : v'.frameAt r w = v.frameAt r w := by
  rw [(tabled.unmapPages_ok top ret).2.2 _ _ top']
  split
  · next both =>
    cases reached : v.tableAt r w with
    | none => rw [frameAt_eq, leafAt, ← Vmm.tableAt, reached, map_none, bind_none]
    | some t =>
      obtain ⟨-, meet⟩ := tabled.forest.walk_unique top' top (by rw [length_pagePath]; decide) rfl reached
        (both.2.symm.trans reached)
      rcases meet with same | ⟨first, rest, path, share⟩
      · exact absurd same differ
      · obtain ⟨rfl, -⟩ := List.cons.inj path
        exact absurd share unshared
  · rfl

end

/-- The entries that the loop finds: present, over frames in use, and no two over the same frame. -/
def Frees (v : Vmm) (root virt n : Nat) : Prop :=
  ∀ i entry, i < n → v.leafAt root (virt + 4096 * i) = some entry →
    entryFrame entry ≠ none ∧ entryPage entry < v.pmm.pageCount ∧ v.pmm.bit (entryPage entry) = true ∧
    ∀ j other, j < n → v.leafAt root (virt + 4096 * j) = some other → entryPage other = entryPage entry → j = i

/-- The loop as it is meant: it returns, the pages it clears in the bitmap are those of the frames
that were mapped in the range, and nothing in the range is mapped afterwards. Page 0 is handed out
later only if it was free or mapped. -/
def UnmapsExactly (v : Vmm) (space : AddressSpace) (virt n : Nat) : Prop :=
  ∃ v', vmmUnmapAndFreePages v space virt n = .ok v' ∧
    (∀ page, v'.pmm.bit page = true ↔
      v.pmm.bit page = true ∧ ∀ i, i < n → v.frameAt space.pml4 (virt + 4096 * i) ≠ some (page * 4096)) ∧
    (∀ i, i < n → v'.frameAt space.pml4 (virt + 4096 * i) = none) ∧
    (v.pmm.bit 0 = true → (∀ i, i < n → v.frameAt space.pml4 (virt + 4096 * i) ≠ some 0) →
      ∀ pmm phys, pmmAllocPage v'.pmm = .ok (pmm, phys) → phys ≠ 0)

theorem first_visit (virt k : Nat) : ∃ i, i ≤ k ∧ pageOf (virt + 4096 * i) = pageOf (virt + 4096 * k) ∧
    ∀ j, j < i → pageOf (virt + 4096 * i) ≠ pageOf (virt + 4096 * j) := by
  have visited : ∃ i, pageOf (virt + 4096 * i) = pageOf (virt + 4096 * k) := ⟨k, rfl⟩
  refine ⟨Nat.find visited, Nat.find_min' visited rfl, Nat.find_spec visited, fun j before same => ?_⟩
  exact Nat.find_min visited before (same.symm.trans (Nat.find_spec visited))

section Exact

variable {trace : Nat → Vmm} {virt n : Nat} (tabled : (trace 0).Tabled shared level)
  (steps : ∀ i, i < n → UnmapsPage shared level root (virt + 4096 * i) (trace i) (trace (i + 1)))

include tabled steps

theorem leafAt_first_visit {i : Nat} (inside : i ≤ n) (top : level root = 4)
    (first : ∀ j, j < i → pageOf (virt + 4096 * i) ≠ pageOf (virt + 4096 * j)) :
    (trace i).leafAt root (virt + 4096 * i) = (trace 0).leafAt root (virt + 4096 * i) := by
  rw [trace_leafAt tabled steps inside top top, if_neg]
  rintro ⟨⟨j, before, same⟩, -⟩
  exact first j before same

/-- If the pages cleared are only those of mapped frames, every entry that was found had been
there from the start, and was present. -/
theorem entry_of_exact (top : level root = 4) (exactly : ∀ page, (trace n).pmm.bit page = true ↔ (trace 0).pmm.bit page = true ∧
      ∀ i, i < n → (trace 0).frameAt root (virt + 4096 * i) ≠ some (page * 4096))
    {i found : Nat} (inside : i < n) (leaf : (trace i).leafAt root (virt + 4096 * i) = some found) :
    (trace 0).leafAt root (virt + 4096 * i) = some found ∧ entryFrame found ≠ none := by
  have used : (trace 0).pmm.bit (entryPage found) = true :=
    ((trace_bit steps (Nat.le_of_lt inside)).mp ((steps i inside).freed found leaf).2).1
  have cleared : ¬(trace n).pmm.bit (entryPage found) = true :=
    fun set => ((trace_bit steps (Nat.le_refl n)).mp set).2 i inside found leaf rfl
  -- the page that was cleared belongs to a frame mapped somewhere in the range
  obtain ⟨k, within, mapped⟩ : ∃ k, k < n ∧ (trace 0).frameAt root (virt + 4096 * k) = some (entryPage found * 4096) := by
    by_contra! none
    exact cleared ((exactly _).mpr ⟨used, none⟩)
  obtain ⟨j, before, same, first⟩ := first_visit virt k
  rw [← frameAt_congr same, frameAt_eq] at mapped
  obtain ⟨entry, original, frame⟩ := bind_eq_some_iff.mp mapped
  obtain ⟨present, page⟩ := entryFrame_eq_some.mp frame
  have here := leafAt_first_visit tabled steps (by omega) top first
  rw [original] at here
  -- and no page is cleared twice, so that place is this one
  rcases Nat.lt_trichotomy i j with order | rfl | order
  · exact absurd page (trace_freed_once steps order (by omega) leaf here)
  · obtain rfl := mem_unique here leaf
    exact ⟨original, present⟩
  · exact absurd page.symm (trace_freed_once steps order inside here leaf)

end Exact

/-- What the loop needs from the entries in order to do what it is meant to. -/
theorem frees_of_exact (tabled : v.Tabled shared level) (top : level space.pml4 = 4)
    (exactly : v.UnmapsExactly space virt n) : v.Frees space.pml4 virt n := by
  obtain ⟨v', ret, bits, -, -⟩ := exactly
  obtain ⟨trace, rfl, rfl, steps⟩ := tabled.unmapPages_trace top ret
  have found {i entry : Nat} (inside : i < n) (leaf : (trace 0).leafAt space.pml4 (virt + 4096 * i) = some entry) :
      (trace i).leafAt space.pml4 (virt + 4096 * i) = some entry ∧ entryFrame entry ≠ none := by
    cases later : (trace i).leafAt space.pml4 (virt + 4096 * i) with
    | none =>
      rw [trace_leafAt tabled steps (by omega) top top, leaf] at later
      split at later <;> cases later
    | some other =>
      obtain ⟨original, present⟩ := entry_of_exact tabled steps top bits inside later
      obtain rfl := mem_unique original leaf
      exact ⟨rfl, present⟩
  intro i entry inside leaf
  obtain ⟨here, present⟩ := found inside leaf
  obtain ⟨managed, used⟩ := (steps i inside).freed entry here
  rw [trace_pageCount steps (by omega)] at managed
  refine ⟨present, managed, ((trace_bit steps (by omega)).mp used).1, fun j other within leaf' same => ?_⟩
  obtain ⟨there, -⟩ := found within leaf'
  rcases Nat.lt_trichotomy i j with order | rfl | order
  · exact absurd same.symm (trace_freed_once steps order within here there)
  · rfl
  · exact absurd same (trace_freed_once steps order inside there here)

/-- Before iteration `i` the entries still to come are untouched, and the pages of the others are
cleared. -/
private structure Unmapping (shared : Fin 512 → Prop) (level : Nat → Nat) (v : Vmm) (root virt n i : Nat) (s : Vmm) : Prop where
  tabled : s.Tabled shared level
  pageCount : s.pmm.pageCount = v.pmm.pageCount
  leaves : ∀ j, i ≤ j → j < n → s.leafAt root (virt + 4096 * j) = v.leafAt root (virt + 4096 * j)
  bits : ∀ page, s.pmm.bit page = true ↔ v.pmm.bit page = true ∧ ∀ j, j < i → ∀ entry,
    v.leafAt root (virt + 4096 * j) = some entry → page ≠ entryPage entry

/-- An iteration returns when the entry is over a frame in use. -/
private theorem Unmapping.step {i : Nat} {s : Vmm}
    (inv : Unmapping shared level v space.pml4 virt n i s) (top : level space.pml4 = 4) (inside : i < n)
    (frees : v.Frees space.pml4 virt n) : ∃ s', unmapAndFreePage space (u64 (virt + u64 (i * pageSize))) s = .ok s' ∧
      Unmapping shared level v space.pml4 virt n (i + 1) s' := by
  have page := pageOf_step virt i
  have returns : ∃ s', unmapAndFreePage space (u64 (virt + u64 (i * pageSize))) s = .ok s' := by
    refine inv.tabled.unmapPage_returns top fun entry leaf => ?_
    rw [leafAt_congr page, inv.leaves i (Nat.le_refl i) inside] at leaf
    obtain ⟨-, managed, used, alone⟩ := frees i entry inside leaf
    refine ⟨inv.pageCount.symm ▸ managed, (inv.bits _).mpr ⟨used, fun j before other leaf' same => ?_⟩⟩
    exact absurd (alone j other (by omega) leaf' same.symm) (by omega)
  obtain ⟨s', ret⟩ := returns
  have step := (inv.tabled.unmapPage top ret).congr page
  refine ⟨s', ret, step.tabled, step.pageCount.trans inv.pageCount, fun j later within => ?_, fun q => ?_⟩
  · rw [step.leaves _ _ top, inv.leaves j (by omega) within]
    split
    · next same =>
      -- a page that is visited again would be freed twice
      cases leaf : v.leafAt space.pml4 (virt + 4096 * j) with
      | none => rfl
      | some entry =>
        have again := leaf
        rw [leafAt_congr same.1] at again
        obtain ⟨-, -, -, alone⟩ := frees i entry inside again
        exact absurd (alone j entry within leaf rfl) (by omega)
    · rfl
  · rw [step.bits, inv.bits, inv.leaves i (Nat.le_refl i) inside, Nat.forall_lt_succ_right, and_assoc]

theorem exact_of_frees (tabled : v.Tabled shared level) (top : level space.pml4 = 4)
    (frees : v.Frees space.pml4 virt n) : v.UnmapsExactly space virt n := by
  have start : Unmapping shared level v space.pml4 virt n 0 v := ⟨tabled, rfl, fun _ _ _ => rfl, by simp⟩
  rcases Outcome.forRange_rule (Unmapping shared level v space.pml4 virt n) (fun _ => False) (Nat.zero_add n)
    (fun i s _ inside inv => Or.inl (inv.step top inside frees)) start with ⟨v', ret, done⟩ | ⟨-, -, impossible⟩
  · have bits (page : Nat) : v'.pmm.bit page = true ↔ v.pmm.bit page = true ∧
        ∀ i, i < n → v.frameAt space.pml4 (virt + 4096 * i) ≠ some (page * 4096) := by
      rw [done.bits]
      refine and_congr_right fun _ => forall_congr' fun i => forall_congr' fun inside => ?_
      rw [frameAt_eq, ne_eq, bind_eq_some_iff]
      constructor
      · rintro apart ⟨entry, leaf, frame⟩
        exact apart entry leaf (entryFrame_eq_some.mp frame).2
      · intro apart entry leaf same
        exact apart ⟨entry, leaf, entryFrame_eq_some.mpr ⟨(frees i entry inside leaf).1, same⟩⟩
    refine ⟨v', ret, bits, fun i inside => ?_, fun reserved apart pmm phys taken zero => ?_⟩
    · rw [tabled.unmapPages_self top ret, if_pos ⟨i, inside, rfl⟩]
    obtain ⟨page, -, clear, -, rfl⟩ := pmmAllocPage_ok done.tabled.valid taken
    obtain rfl : page = 0 := by omega
    rw [(bits 0).mpr ⟨reserved, by simpa using apart⟩] at clear
    cases clear
  · exact impossible.elim

end Vmm

/-- `vmm_unmap_and_free_pages` frees the mapped frames of its range and nothing else exactly when
each page with a last table has a present entry there, over a frame in use, and no frame twice. An
absent entry in an existing table gives page 0 back. -/
theorem vmmUnmapAndFreePages_exact_iff (v : Vmm) (shared : Fin 512 → Prop) (level : Nat → Nat) (space : AddressSpace)
    (virt n : Nat) (tabled : v.Tabled shared level) (root : level space.pml4 = 4) :
    v.UnmapsExactly space virt n ↔ v.Frees space.pml4 virt n :=
  ⟨Vmm.frees_of_exact tabled root, Vmm.exact_of_frees tabled root⟩

/-- A page is mapped and its neighbour, in the same table, is unmapped: page 0 is free after it. -/
theorem absent_page_frees_zero : ∃ v,
    vmmMapPages smallVmm smallVmm.kernelSpace 0xFFFF900000400000 0x5000 1 pageWritable = .ok v ∧
    ¬v.UnmapsExactly smallVmm.kernelSpace 0xFFFF900000401000 1 := by
  have run : (vmmMapPages smallVmm smallVmm.kernelSpace 0xFFFF900000400000 0x5000 1 pageWritable >>= fun v =>
      vmmUnmapAndFreePages v smallVmm.kernelSpace 0xFFFF900000401000 1 >>= fun v' =>
      pure (v.frameAt smallVmm.kernelSpace.pml4 0xFFFF900000401000, v.pmm.bit 0, v'.pmm.bit 0)) =
      .ok (none, true, false) := by decide +kernel
  obtain ⟨v, v', mapped, unmapped, seen⟩ := of_bind₂ run
  simp only [ok_pair, Prod.mk.injEq] at seen
  obtain ⟨absent, reserved, cleared⟩ := seen
  refine ⟨v, mapped, ?_⟩
  rintro ⟨v'', returned, bits, -⟩
  obtain rfl := Except.ok.inj (unmapped.symm.trans returned)
  have kept := (bits 0).mpr ⟨reserved, fun i inside => ?_⟩
  · rw [cleared] at kept
    cases kept
  · obtain rfl : i = 0 := by omega
    rw [Nat.mul_zero, Nat.add_zero, absent]
    nofun

/-- A page in use is mapped, and unmapping it frees that page alone. -/
theorem mapped_page_unmaps : ∃ v,
    vmmMapPages { smallVmm with pmm := smallVmm.pmm.allocated 2 1 } smallVmm.kernelSpace 0xFFFF900000400000 0x2000 1
      pageWritable = .ok v ∧
    v.UnmapsExactly smallVmm.kernelSpace 0xFFFF900000400000 1 := by
  have wf := smallVmm_wellFormed.allocated 2 1 (by decide)
  have root : Radix.ranked (fun _ => 0) smallVmm.kernelSpace.pml4 4 smallVmm.kernelSpace.pml4 = 4 := Radix.ranked_self
  have bound : 0x2000 + 4096 * 1 ≤ 2 ^ 52 := by decide
  have apart : pageWritable &&& pageAddrMask = 0 := by decide
  rcases wf.mapPages root 0xFFFF900000400000 (by decide) bound apart with
    ⟨v, returned, level, wf', maps, -⟩ | ⟨_, _, _, few⟩
  · have top : level smallVmm.kernelSpace.pml4 = 4 := by
      rw [maps.levels _ (by rw [Radix.ranked_self]; decide), Radix.ranked_self]
    refine ⟨v, returned, (vmmUnmapAndFreePages_exact_iff v _ level _ _ 1 wf'.tabled top).mpr fun i entry inside leaf => ?_⟩
    obtain rfl : i = 0 := by omega
    have frame : entryFrame entry = some (2 * 4096) := by
      have here := maps.here 0xFFFF900000400000
      rw [Vmm.frameAt_eq, leaf] at here
      exact here
    obtain ⟨present, page⟩ := entryFrame_eq_some.mp frame
    rw [← page, maps.pageCount]
    exact ⟨present, by decide, maps.bits 2 (by decide), fun j _ within _ _ => by omega⟩
  · exact absurd few (by decide)

end Xos.Memory
