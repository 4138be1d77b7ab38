import Mathlib.Data.List.Range
import Mathlib.Logic.Function.Basic

/-!
# Tables that are filled from the front

Entries are put in the first unused place and are never taken out, so the table is a list that grows until it has `n`
items.
-/
namespace Xos.Lib.AppendTable

open Function List

variable {α κ : Type*} (key : α → κ) (unused : κ) (n : Nat)

structure Records (table : Nat → α) (items : List α) : Prop where
  fits : items.length ≤ n
  listed : items = (List.range items.length).map table
  keyed : ∀ item ∈ items, key item ≠ unused
  free : ∀ i, items.length ≤ i → i < n → key (table i) = unused

variable {key unused n} {table : Nat → α} {items : List α}

theorem Records.empty (free : ∀ i < n, key (table i) = unused) : Records key unused n table [] where
  fits := Nat.zero_le n
  listed := rfl
  keyed := by simp
  free i _ inside := free i inside

section

variable (records : Records key unused n table items)
include records

theorem Records.getElem {i : Nat} (inside : i < items.length) : table i = items[i] := by
  have same : items[i]? = ((List.range items.length).map table)[i]? := congrArg (·[i]?) records.listed
  rw [getElem?_eq_getElem inside, getElem?_map, getElem?_range inside] at same
  exact (Option.some.inj same).symm

theorem Records.used {i : Nat} (inside : i < items.length) : key (table i) ≠ unused := by
  rw [records.getElem inside]
  exact records.keyed _ (getElem_mem inside)

theorem Records.find_unused [DecidableEq κ] :
    (List.range n).find? (fun i => decide (key (table i) = unused)) = if items.length < n then some items.length else none := by
  split
  next room =>
    rw [find?_range_eq_some]
    refine ⟨decide_eq_true (records.free _ (Nat.le_refl _) room), mem_range.mpr room, fun i before => ?_⟩
    simp [records.used before]
  next full =>
    rw [find?_eq_none]
    intro i inside
    have before : i < items.length := by
      have := mem_range.mp inside
      omega
    simp [records.used before]

theorem Records.find_key [DecidableEq κ] {k : κ} (real : k ≠ unused) :
    ((List.range n).find? fun i => decide (key (table i) = k)).map table = items.find? fun item => decide (key item = k) := by
  have split : List.range n = List.range items.length ++ (List.range (n - items.length)).map (items.length + ·) := by
    rw [← range_add, Nat.add_sub_cancel' records.fits]
  have rest : ((List.range (n - items.length)).map (items.length + ·)).find? (fun i => decide (key (table i) = k)) = none := by
    rw [find?_eq_none]
    intro i behind
    obtain ⟨j, inside, rfl⟩ := mem_map.mp behind
    have empty := records.free (items.length + j) (by omega) (by have := mem_range.mp inside; omega)
    simp [empty, real.symm]
  rw [split, find?_append, rest, Option.or_none]
  conv_rhs => rw [records.listed, find?_map]
  rfl

theorem Records.append {item : α} (room : items.length < n) (keyed : key item ≠ unused) :
    Records key unused n (update table items.length item) (items ++ [item]) := by
  refine ⟨?_, ?_, ?_, fun i behind inside => ?_⟩
  · rw [length_append, length_singleton]
    exact room
  · rw [length_append, length_singleton, range_succ, map_append, map_singleton, update_self]
    congr 1
    conv_lhs => rw [records.listed]
    apply map_congr_left
    intro i before
    exact (update_of_ne (Nat.ne_of_lt (mem_range.mp before)) ..).symm
  · intro other mem
    rcases mem_append.mp mem with old | new
    · exact records.keyed other old
    · rwa [mem_singleton.mp new]
  · rw [length_append, length_singleton] at behind
    rw [update_of_ne (by omega)]
    exact records.free i (by omega) inside

theorem Records.scribble {item : α} {place : Nat} (behind : items.length ≤ place)
    (blank : key item = unused) : Records key unused n (update table place item) items := by
  refine ⟨records.fits, ?_, records.keyed, fun i later inside => ?_⟩
  · conv_lhs => rw [records.listed]
    apply map_congr_left
    intro i before
    have less := mem_range.mp before
    exact (update_of_ne (by omega) ..).symm
  · by_cases here : i = place
    · rw [here, update_self]
      exact blank
    · rw [update_of_ne here]
      exact records.free i later inside

end

end Xos.Lib.AppendTable
