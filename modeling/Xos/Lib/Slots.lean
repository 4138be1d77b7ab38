import Mathlib.Data.List.Perm.Basic
import Mathlib.Data.List.Perm.Subperm
import Mathlib.Data.List.Range
import Mathlib.Logic.Function.Basic

/-!
# Slots

An array of `n` slots, each empty or with an item in it, holds a bag of items: which slot an item is in
does not matter to its users.
-/
namespace Xos.Lib.Slots

open List

variable {β : Type*} {n : Nat} {slots slots' : Nat → Option β}

def contents (n : Nat) (slots : Nat → Option β) : List β := (range n).filterMap slots

theorem contents_succ (n : Nat) (slots : Nat → Option β) : contents (n + 1) slots = contents n slots ++ (slots n).toList := by
  rw [contents, range_succ, filterMap_append]
  cases item : slots n <;> simp [contents, item]

theorem contents_congr (same : ∀ i < n, slots i = slots' i) : contents n slots = contents n slots' :=
  filterMap_congr fun i inside => same i (mem_range.mp inside)

theorem contents_fill {k : Nat} {x : β} (inside : k < n) (empty : slots k = none) (filled : slots' k = some x)
    (others : ∀ i < n, i ≠ k → slots' i = slots i) : (contents n slots').Perm (x :: contents n slots) := by
  have first := perm_cons_erase (mem_range.mpr inside)
  have rest : ((range n).erase k).filterMap slots' = ((range n).erase k).filterMap slots := by
    apply filterMap_congr
    intro i present
    obtain ⟨other, below⟩ := (nodup_range.mem_erase_iff).mp present
    exact others i (mem_range.mp below) other
  have before := first.filterMap slots
  have after := first.filterMap slots'
  rw [filterMap_cons_none empty] at before
  rw [filterMap_cons_some filled, rest] at after
  exact after.trans (before.symm.cons x)

end Xos.Lib.Slots
