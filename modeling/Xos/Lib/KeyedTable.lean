import Mathlib.Data.Finset.Card
import Mathlib.Data.Fintype.Card
import Mathlib.Data.List.Basic
import Mathlib.Logic.Function.Basic

/-!
# Tables with update-or-insert

An item takes the place of the one with its key, or the first free slot, or is dropped. As long as no more than `n` keys
have come the table is a map.
-/
namespace Xos.Lib.KeyedTable

open Function List

variable {κ β : Type*} [DecidableEq κ] (key : β → κ) (n : Nat)

def slotOf (table : Nat → Option β) (k : κ) : Option Nat := (List.range n).find? fun i => (table i).any fun y => key y = k

def freeSlot (table : Nat → Option β) : Option Nat := (List.range n).find? fun i => (table i).isNone

def upsert (table : Nat → Option β) (x : β) : Nat → Option β :=
  match slotOf key n table (key x) with
  | some i => update table i (some x)
  | none =>
    match freeSlot n table with
    | some i => update table i (some x)
    | none => table

def Holds (table : Nat → Option β) (x : β) : Prop := ∃ i < n, table i = some x

def Distinct (table : Nat → Option β) : Prop :=
  ∀ i < n, ∀ j < n, ∀ x y, table i = some x → table j = some y → key x = key y → i = j

def Room (table : Nat → Option β) (k : κ) : Prop := (∃ y, Holds n table y ∧ key y = k) ∨ ∃ i < n, table i = none

def last (xs : List β) (k : κ) : Option β := xs.reverse.find? fun x => key x = k

variable {key n} {table : Nat → Option β} {x y : β}

theorem slotOf_eq_some {k : κ} {i : Nat} (found : slotOf key n table k = some i) : i < n ∧ ∃ y, table i = some y ∧ key y = k := by
  refine ⟨mem_range.mp (mem_of_find?_eq_some found), ?_⟩
  have passed := find?_some found
  simpa [Option.any_eq_true] using passed

theorem slotOf_eq_none {k : κ} (none : slotOf key n table k = none) : ∀ y, Holds n table y → key y ≠ k := by
  rintro y ⟨i, inside, here⟩ same
  have failed := find?_eq_none.mp none i (mem_range.mpr inside)
  simp [here, same] at failed

theorem freeSlot_eq_some {i : Nat} (found : freeSlot n table = some i) : i < n ∧ table i = none := by
  refine ⟨mem_range.mp (mem_of_find?_eq_some found), ?_⟩
  simpa using find?_some found

theorem freeSlot_eq_none (none : freeSlot n table = none) : ∀ i < n, ∃ y, table i = some y := by
  intro i inside
  have failed := find?_eq_none.mp none i (mem_range.mpr inside)
  simpa [Option.isSome_iff_exists, Option.ne_none_iff_exists'] using failed

section

variable (distinct : Distinct key n table)
include distinct

/-- An item is stored in a slot of its own, or there is no room for it. -/
theorem Distinct.upsert_cases (x : β) : (Room key n table (key x) ∧ ∃ i < n, (∀ y, table i = some y → key y = key x) ∧
        (∀ j < n, j ≠ i → ∀ y, table j = some y → key y ≠ key x) ∧ upsert key n table x = update table i (some x)) ∨
      (¬Room key n table (key x) ∧ upsert key n table x = table) := by
  unfold upsert
  split
  next i found =>
    obtain ⟨inside, y, here, same⟩ := slotOf_eq_some found
    refine .inl ⟨.inl ⟨y, ⟨i, inside, here⟩, same⟩, i, inside, fun z again => ?_, fun j below other z there equal => ?_, rfl⟩
    · rw [Option.mem_unique again here, same]
    · exact other (distinct j below i inside z y there here (equal.trans same.symm))
  next unknown =>
    have others := slotOf_eq_none unknown
    split
    next i found =>
      obtain ⟨inside, free⟩ := freeSlot_eq_some found
      refine .inl ⟨.inr ⟨i, inside, free⟩, i, inside, fun y here => ?_, fun j below _ y there => others y ⟨j, below, there⟩, rfl⟩
      rw [free] at here
      cases here
    next full =>
      refine .inr ⟨?_, rfl⟩
      rintro (⟨y, held, same⟩ | ⟨i, inside, free⟩)
      · exact others y held same
      · obtain ⟨y, used⟩ := freeSlot_eq_none full i inside
        rw [free] at used
        cases used

theorem Distinct.upsert (x : β) : Distinct key n (upsert key n table x) := by
  rcases distinct.upsert_cases x with ⟨-, i, inside, -, others, stored⟩ | ⟨-, dropped⟩
  · rw [stored]
    intro j below k bound y z left right same
    by_cases first : j = i
    · by_cases second : k = i
      · rw [first, second]
      · subst first
        rw [update_self, Option.some.injEq] at left
        rw [update_of_ne second] at right
        exact absurd (left ▸ same.symm) (others k bound second z right)
    · rw [update_of_ne first] at left
      by_cases second : k = i
      · subst second
        rw [update_self, Option.some.injEq] at right
        exact absurd (right ▸ same) (others j below first y left)
      · rw [update_of_ne second] at right
        exact distinct j below k bound y z left right same
  · rwa [dropped]

theorem Distinct.holds_upsert (room : Room key n table (key x)) :
    Holds n (KeyedTable.upsert key n table x) y ↔ y = x ∨ Holds n table y ∧ key y ≠ key x := by
  rcases distinct.upsert_cases x with ⟨-, i, inside, own, others, stored⟩ | ⟨full, -⟩
  · rw [stored]
    constructor
    · rintro ⟨j, below, here⟩
      by_cases place : j = i
      · subst place
        rw [update_self, Option.some.injEq] at here
        exact .inl here.symm
      · rw [update_of_ne place] at here
        exact .inr ⟨⟨j, below, here⟩, others j below place y here⟩
    · rintro (rfl | ⟨⟨j, below, here⟩, other⟩)
      · exact ⟨i, inside, update_self ..⟩
      · have place : j ≠ i := fun same => other (own y (same ▸ here))
        exact ⟨j, below, by rwa [update_of_ne place]⟩
  · exact absurd room full

theorem Distinct.holds_upsert_of_ne (other : key y ≠ key x) : Holds n (KeyedTable.upsert key n table x) y ↔ Holds n table y := by
  by_cases room : Room key n table (key x)
  · rw [distinct.holds_upsert room, and_iff_left other]
    exact or_iff_right fun same => other (by rw [same])
  · rcases distinct.upsert_cases x with ⟨stored, -⟩ | ⟨-, dropped⟩
    · exact absurd stored room
    · rw [dropped]

theorem Distinct.holds_of_upsert (held : Holds n (KeyedTable.upsert key n table x) y) : y = x ∨ Holds n table y := by
  by_cases room : Room key n table (key x)
  · exact ((distinct.holds_upsert room).mp held).imp_right And.left
  · rcases distinct.upsert_cases x with ⟨stored, -⟩ | ⟨-, dropped⟩
    · exact absurd stored room
    · rw [dropped] at held
      exact .inr held

end

theorem last_append (xs : List β) (x : β) (k : κ) : last key (xs ++ [x]) k = if key x = k then some x else last key xs k := by
  simp only [last, reverse_append, reverse_singleton, singleton_append, find?_cons]
  by_cases same : key x = k
  · simp [same]
  · simp [same]

variable {xs : List β}

theorem key_of_last {k : κ} (found : last key xs k = some x) : key x = k := by
  simpa using find?_some found

theorem last_isSome (inside : x ∈ xs) : ∃ y, last key xs (key x) = some y := by
  rw [← Option.isSome_iff_exists, last, find?_isSome]
  exact ⟨x, mem_reverse.mpr inside, by simp⟩

theorem distinct_of_history (xs : List β) : Distinct key n (xs.foldl (upsert key n) fun _ => none) := by
  induction xs using List.reverseRecOn with
  | nil =>
    intro i _ j _ x y left
    cases left
  | append_singleton xs x ih =>
    rw [foldl_append]
    exact ih.upsert x

theorem mem_of_holds (held : Holds n (xs.foldl (upsert key n) fun _ => none) y) : y ∈ xs := by
  induction xs using List.reverseRecOn with
  | nil =>
    obtain ⟨i, -, here⟩ := held
    cases here
  | append_singleton xs x ih =>
    rw [foldl_append] at held
    rcases (distinct_of_history xs).holds_of_upsert held with rfl | before
    · simp
    · exact mem_append_left _ (ih before)

theorem Distinct.card_le (distinct : Distinct key n table) (full : ∀ i < n, ∃ y, table i = some y) {keys : Finset κ}
    (known : ∀ y, Holds n table y → key y ∈ keys) : n ≤ keys.card := by
  choose item filled using fun i : Fin n => full i i.isLt
  have injective : Function.Injective fun i => key (item i) := fun i j same =>
    Fin.ext (distinct i i.isLt j j.isLt _ _ (filled i) (filled j) same)
  have subset : Finset.univ.image (fun i => key (item i)) ⊆ keys := by
    intro k inside
    obtain ⟨i, -, rfl⟩ := Finset.mem_image.mp inside
    exact known _ ⟨i, i.isLt, filled i⟩
  have counted := Finset.card_le_card subset
  rwa [Finset.card_image_of_injective _ injective, Finset.card_univ, Fintype.card_fin] at counted

/-- As long as no more keys than slots have come, the table is the map from keys to last items. -/
theorem holds_iff_last (xs : List β) (few : (xs.map key).toFinset.card ≤ n) (y : β) :
    Holds n (xs.foldl (upsert key n) fun _ => none) y ↔ last key xs (key y) = some y := by
  induction xs using List.reverseRecOn generalizing y with
  | nil => simp [Holds, last]
  | append_singleton xs x ih =>
    simp only [map_append, map_singleton, toFinset_append] at few
    have fewer : (xs.map key).toFinset.card ≤ n := (Finset.card_le_card Finset.subset_union_left).trans few
    have before := ih fewer
    have distinct : Distinct key n (xs.foldl (upsert key n) fun _ => none) := distinct_of_history xs
    rw [foldl_append, foldl_cons, foldl_nil]
    generalize xs.foldl (upsert key n) (fun _ => none) = table at before distinct ⊢
    have known (z : β) (held : Holds n table z) : key z ∈ (xs.map key).toFinset := by
      have came := mem_of_find?_eq_some ((before z).mp held)
      exact mem_toFinset.mpr (mem_map_of_mem (mem_reverse.mp came))
    -- a full table without the key has as many other keys as may come
    have room : Room key n table (key x) := by
      by_contra none
      simp only [Room, not_or, not_exists, not_and] at none
      have full : ∀ i < n, ∃ z, table i = some z := fun i inside => Option.ne_none_iff_exists'.mp (none.2 i inside)
      have new : key x ∉ (xs.map key).toFinset := by
        intro old
        obtain ⟨z, came, same⟩ := mem_map.mp (mem_toFinset.mp old)
        obtain ⟨w, found⟩ : ∃ w, last key xs (key z) = some w := last_isSome came
        have equal := key_of_last found
        refine none.1 w ((before w).mpr ?_) (equal.trans same)
        rwa [equal]
      have many := distinct.card_le full known
      rw [toFinset_cons, toFinset_nil, LawfulSingleton.insert_empty_eq, Finset.union_comm,
        ← Finset.insert_eq, Finset.card_insert_of_notMem new] at few
      omega
    rw [distinct.holds_upsert room, last_append, before]
    by_cases same : key x = key y
    · simp only [same, ne_eq, not_true_eq_false, and_false, or_false, if_true, Option.some.injEq]
      exact eq_comm
    · have other : y ≠ x := fun equal => same (by rw [equal])
      simp [same, other, Ne.symm same]

end Xos.Lib.KeyedTable
