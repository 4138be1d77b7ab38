import Mathlib.Data.List.Basic
import Mathlib.Data.List.Perm.Basic
import Mathlib.Order.Lattice

/-!
# Stable sorting

A list is sorted by a key, and items with equal keys stand in the order in which they came. A new item
goes behind those whose keys are not larger, and a sorted list is cut where the keys pass a bound.
-/
namespace Xos.Lib

open List

variable {α κ : Type*} [LinearOrder κ]

/-- The items in the order of their keys, those with equal keys in their own order. -/
structure StablySorted (key : α → κ) (sorted items : List α) : Prop where
  perm : sorted.Perm items
  order : sorted.Pairwise fun a b => key a ≤ key b
  stable : ∀ k, (sorted.filter fun a => key a = k) = items.filter fun a => key a = k

namespace StablySorted

variable {key : α → κ} {sorted items front back : List α}

theorem nil (key : α → κ) : StablySorted key [] [] := ⟨.refl _, .nil, fun _ => rfl⟩

theorem insert {x : α} (rest : StablySorted key (front ++ back) items) (before : ∀ a ∈ front, key a ≤ key x)
    (behind : ∀ a ∈ back, key x < key a) : StablySorted key (front ++ x :: back) (items ++ [x]) := by
  obtain ⟨perm, order, stable⟩ := rest
  refine ⟨?_, ?_, fun k => ?_⟩
  · exact perm_middle.trans ((perm.cons x).trans (perm_append_singleton x items).symm)
  · rw [pairwise_append] at order ⊢
    obtain ⟨first, last, across⟩ := order
    refine ⟨first, pairwise_cons.mpr ⟨fun a inside => (behind a inside).le, last⟩, fun a inFront b inBack => ?_⟩
    rcases mem_cons.mp inBack with rfl | inBack
    · exact before a inFront
    · exact across a inFront b inBack
  · have same := stable k
    simp only [filter_append, filter_cons, filter_nil] at same ⊢
    by_cases here : key x = k
    · -- what stands behind has larger keys
      have none : (back.filter fun a => key a = k) = [] := by
        simp only [filter_eq_nil_iff, decide_eq_true_eq]
        intro a inside equal
        exact absurd (behind a inside) (by rw [here, equal]; exact lt_irrefl k)
      rw [none, append_nil] at same
      simp [here, none, same]
    · simpa [here] using same

theorem filter (rest : StablySorted key sorted items) (p : α → Bool) : StablySorted key (sorted.filter p) (items.filter p) := by
  refine ⟨rest.perm.filter p, rest.order.filter p, fun k => ?_⟩
  rw [filter_comm, rest.stable k, filter_comm]

section

variable {bound : κ} (rest : StablySorted key (front ++ back) items)
  (due : ∀ a ∈ front, key a ≤ bound) (later : ∀ a ∈ back, bound < key a)
include rest due later

theorem upTo : StablySorted key front (items.filter fun a => key a ≤ bound) := by
  have same : ((front ++ back).filter fun a => key a ≤ bound) = front := by
    rw [filter_append, filter_eq_self.mpr (by simpa using due), filter_eq_nil_iff.mpr (by simpa using later),
      append_nil]
  have kept := rest.filter fun a => key a ≤ bound
  rwa [same] at kept

theorem beyond : StablySorted key back (items.filter fun a => bound < key a) := by
  have same : ((front ++ back).filter fun a => bound < key a) = back := by
    rw [filter_append, filter_eq_nil_iff.mpr (by simpa using due), filter_eq_self.mpr (by simpa using later),
      nil_append]
  have kept := rest.filter fun a => bound < key a
  rwa [same] at kept

end

end StablySorted
end Xos.Lib
