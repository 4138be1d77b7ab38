import Mathlib.Data.List.Chain

/-!
# Ranges that are mapped piece by piece

A range of addresses is tiled by extents, each of which is mapped in one piece. What is contiguous
after the mapping is decided where one extent ends and the next begins.
-/
namespace Xos.Lib

/-- `size` addresses from `start` on, mapped to those from `image` on. -/
structure Extent where
  start : Nat
  image : Nat
  size : Nat
  deriving DecidableEq, Repr

/-- The extents follow one another from `a` to `stop`, and none is empty. -/
def Tile : Nat → List Extent → Nat → Prop
  | a, [], stop => a = stop
  | a, e :: extents, stop => e.start = a ∧ 0 < e.size ∧ Tile (a + e.size) extents stop

def Extent.Maps (e : Extent) (f : Nat → Nat) : Prop := ∀ i, i < e.size → f (e.start + i) = e.image + i

/-- The mapping keeps distances in `len` addresses from `lo` on. -/
def Contiguous (f : Nat → Nat) (lo len : Nat) : Prop := ∀ i, i < len → f (lo + i) = f lo + i

def Meets (lo hi : Nat) (e next : Extent) : Prop :=
  lo < next.start → next.start < hi → next.image = e.image + e.size

variable {f : Nat → Nat} {a stop lo len : Nat} {extents : List Extent}

section

variable (tile : Tile a extents stop)
include tile

theorem Tile.le : a ≤ stop := by
  induction extents generalizing a with
  | nil => exact Nat.le_of_eq tile
  | cons e extents ih =>
    have rest := ih tile.2.2
    omega

omit tile in
theorem Tile.append {e : Extent} (tile : Tile a extents stop) (start : e.start = stop) (pos : 0 < e.size) :
    Tile a (extents ++ [e]) (stop + e.size) := by
  induction extents generalizing a with
  | nil => exact ⟨start.trans tile.symm, pos, congrArg (· + e.size) tile⟩
  | cons d extents ih => exact ⟨tile.1, tile.2.1, ih tile.2.2⟩

theorem Tile.bounds {e : Extent} (mem : e ∈ extents) : a ≤ e.start ∧ e.start + e.size ≤ stop := by
  induction extents generalizing a with
  | nil => cases mem
  | cons d extents ih =>
    have rest := tile.2.2.le
    rcases List.mem_cons.mp mem with rfl | later
    · rw [tile.1]
      exact ⟨Nat.le_refl a, rest⟩
    · have inside := ih tile.2.2 later
      omega

theorem Tile.covers {x : Nat} (low : a ≤ x) (high : x < stop) :
    ∃ e ∈ extents, e.start ≤ x ∧ x < e.start + e.size := by
  induction extents generalizing a with
  | nil =>
    obtain rfl : a = stop := tile
    omega
  | cons d extents ih =>
    obtain ⟨rfl, -, rest⟩ := tile
    by_cases here : x < d.start + d.size
    · exact ⟨d, List.mem_cons_self, low, here⟩
    · obtain ⟨e, mem, inside⟩ := ih rest (by omega)
      exact ⟨e, List.mem_cons_of_mem d mem, inside⟩

omit tile in
theorem contiguous_iff_succ : Contiguous f lo len ↔ ∀ x, lo ≤ x → x + 1 < lo + len → f (x + 1) = f x + 1 := by
  constructor
  · intro contiguous x low high
    obtain ⟨i, rfl⟩ := Nat.exists_eq_add_of_le low
    rw [Nat.add_assoc, contiguous (i + 1) (by omega), contiguous i (by omega), Nat.add_assoc]
  · intro succ i inside
    induction i with
    | zero => rfl
    | succ i ih => rw [← Nat.add_assoc, succ (lo + i) (Nat.le_add_right lo i) (by omega), ih (by omega), Nat.add_assoc]

omit tile in
theorem Extent.Maps.succ {e : Extent} (maps : e.Maps f) {x : Nat} (low : e.start ≤ x) (high : x + 1 < e.start + e.size) :
    f (x + 1) = f x + 1 := by
  obtain ⟨i, rfl⟩ := Nat.exists_eq_add_of_le low
  rw [Nat.add_assoc, maps (i + 1) (by omega), maps i (by omega), Nat.add_assoc]

theorem succ_iff_chain (maps : ∀ e ∈ extents, e.Maps f) (hi : Nat) :
    (∀ x, a ≤ x → x + 1 < stop → lo ≤ x → x + 1 < hi → f (x + 1) = f x + 1) ↔ extents.IsChain (Meets lo hi) := by
  -- the first extent against its neighbour, and the induction hypothesis for the rest
  induction extents generalizing a with
  | nil =>
    obtain rfl : a = stop := tile
    exact iff_of_true (fun x low high => by omega) .nil
  | cons e extents ih =>
    obtain ⟨rfl, pos, rest⟩ := tile
    have here := maps e List.mem_cons_self
    cases extents with
    | nil =>
      obtain rfl : e.start + e.size = stop := rest
      exact iff_of_true (fun x low high _ _ => here.succ low high) (.singleton e)
    | cons next extents =>
      have there := maps next (by simp)
      rw [List.isChain_cons_cons, ← ih rest fun d mem => maps d (List.mem_cons_of_mem e mem)]
      obtain ⟨start, positive', rest'⟩ := rest
      have last := rest'.le
      -- the last address of the extent and the first of its neighbour
      have edge : f (next.start - 1) + 1 = e.image + e.size := by
        rw [start, Nat.add_sub_assoc pos, here (e.size - 1) (by omega)]
        omega
      have first : f next.start = next.image := there 0 positive'
      constructor
      · intro succ
        refine ⟨fun low high => ?_, fun x low => succ x (by omega)⟩
        have step := succ (next.start - 1) (by omega) (by omega) (by omega) (by omega)
        rwa [Nat.sub_add_cancel (by omega), first, edge] at step
      · rintro ⟨meets, later⟩ x low high low' high'
        rcases Nat.lt_trichotomy (x + 1) next.start with before | same | after
        · exact here.succ low (by omega)
        · have before : f x + 1 = e.image + e.size := by rw [← edge, ← same, Nat.add_sub_cancel]
          rw [same, first, before, meets (by omega) (by omega)]
        · exact later x (by omega) high low' high'

theorem contiguous_iff_chain (maps : ∀ e ∈ extents, e.Maps f) (low : a ≤ lo)
    (high : lo + len ≤ stop) : Contiguous f lo len ↔ extents.IsChain (Meets lo (lo + len)) := by
  rw [contiguous_iff_succ, ← succ_iff_chain tile maps]
  exact ⟨fun succ x _ _ => succ x, fun succ x low' high' => succ x (by omega) (by omega) low' high'⟩

end

end Xos.Lib
