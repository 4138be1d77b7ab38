import Mathlib.Data.Finset.Card
import Mathlib.Data.Finset.Range
import Xos.Memory.PmmSpec

/-!
# Counting pages

The number of set bits among the managed pages, and how each bitmap update changes it.
`Pmm.Counted` ties it to the `used_memory` counter, up to the counter's 64 bits.
-/
namespace Xos.Memory

open Word Lib Finset

/-- The number of set bits among the first `pageCount` bits. -/
def Pmm.usedPages (s : Pmm) : Nat := ((Finset.range s.pageCount).filter fun p => s.bit p = true).card

/-- The number of clear bits among the first `pageCount` bits. -/
def Pmm.freePages (s : Pmm) : Nat := ((Finset.range s.pageCount).filter fun p => s.bit p = false).card

theorem Pmm.usedPages_add_freePages (s : Pmm) : s.usedPages + s.freePages = s.pageCount := by
  have split := card_filter_add_card_filter_not (s := range s.pageCount)
    (fun p => s.bit p = true)
  simpa [Pmm.usedPages, Pmm.freePages] using split

theorem Pmm.usedPages_le (s : Pmm) : s.usedPages ≤ s.pageCount := by
  have total := s.usedPages_add_freePages
  omega

theorem usedPages_of_set {s s' : Pmm} {taken : Finset Nat} (same : s'.pageCount = s.pageCount)
    (managed : ∀ p ∈ taken, p < s.pageCount) (clear : ∀ p ∈ taken, s.bit p = false)
    (update : ∀ p, p < s.pageCount → (s'.bit p = true ↔ p ∈ taken ∨ s.bit p = true)) : s'.usedPages = s.usedPages + taken.card := by
  have apart : Disjoint taken ((range s.pageCount).filter fun p => s.bit p = true) := by
    rw [disjoint_left]
    intro p mem counted
    have used := (mem_filter.mp counted).2
    rw [clear p mem] at used
    cases used
  have union : (range s'.pageCount).filter (fun p => s'.bit p = true) =
      taken ∪ (range s.pageCount).filter fun p => s.bit p = true := by
    ext p
    simp only [same, mem_filter, mem_range, mem_union]
    constructor
    · rintro ⟨bound, used⟩
      rcases (update p bound).mp used with mem | old
      · exact Or.inl mem
      · exact Or.inr ⟨bound, old⟩
    · rintro (mem | ⟨bound, old⟩)
      · exact ⟨managed p mem, (update p (managed p mem)).mpr (Or.inl mem)⟩
      · exact ⟨bound, (update p bound).mpr (Or.inr old)⟩
  rw [Pmm.usedPages, union, card_union_of_disjoint apart, Pmm.usedPages, Nat.add_comm]

theorem Pmm.freePages_allocated {s : Pmm} {page : Nat} (managed : page < s.pageCount) (clear : s.bit page = false) :
    (s.allocated page 1).freePages + 1 = s.freePages := by
  have used : (s.allocated page 1).usedPages = s.usedPages + ({page} : Finset Nat).card := by
    apply usedPages_of_set (s.allocated_pageCount page 1)
    · intro p mem
      rwa [mem_singleton.mp mem]
    · intro p mem
      rwa [mem_singleton.mp mem]
    · intro p _
      rw [Pmm.allocated_bit, Bool.or_eq_true, decide_eq_true_eq, mem_singleton]
      exact or_congr_left (by omega)
  have before := s.usedPages_add_freePages
  have after := (s.allocated page 1).usedPages_add_freePages
  rw [card_singleton] at used
  rw [Pmm.allocated_pageCount] at after
  omega

theorem usedPages_of_clear {s s' : Pmm} {page : Nat} (same : s'.pageCount = s.pageCount)
    (managed : page < s.pageCount) (used : s.bit page = true)
    (update : ∀ p, p < s.pageCount → (s'.bit p = true ↔ p ≠ page ∧ s.bit p = true)) : s'.usedPages + 1 = s.usedPages := by
  have back : s.usedPages = s'.usedPages + ({page} : Finset Nat).card := by
    apply usedPages_of_set same.symm
    · intro p mem
      rw [same, mem_singleton.mp mem]
      exact managed
    · intro p mem
      rw [mem_singleton.mp mem, ← Bool.not_eq_true, update page managed]
      exact fun ⟨differ, _⟩ => differ rfl
    · intro p bound
      rw [same] at bound
      rw [update p bound, mem_singleton]
      by_cases here : p = page
      · simp [here, used]
      · simp [here]
  rw [back, card_singleton]

def Pmm.Counted (s : Pmm) : Prop := s.usedMemory = u64 (4096 * s.usedPages)

end Xos.Memory
