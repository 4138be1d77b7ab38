import Mathlib.Tactic.Common

/-!
# Windows of consecutive positions

A scan for `n` consecutive free positions remembers the length of the longest free window that ends where it is.
-/
namespace Xos.Lib

variable (free : Nat → Bool)

/-- `n` consecutive free positions, from `first` on. -/
def Window (first n : Nat) : Prop := ∀ p, first ≤ p → p < first + n → free p = true

/-- Some window of `n` free positions lies inside `[lo, hi)`. -/
def HasWindow (lo hi n : Nat) : Prop := ∃ first, lo ≤ first ∧ first + n ≤ hi ∧ Window free first n

/-- `c` is the length of the longest free window that ends at `i` and starts at `lo` or later. -/
structure Suffix (lo i c : Nat) : Prop where
  fits : lo + c ≤ i
  window : Window free (i - c) c
  maximal : lo + c = i ∨ free (i - c - 1) = false

variable {free} {lo hi i c n : Nat}

theorem Suffix.start (lo : Nat) : Suffix free lo lo 0 :=
  ⟨Nat.le_refl _, fun p _ _ => by omega, Or.inl rfl⟩

theorem Suffix.busy (le : lo ≤ i) (taken : free i = false) : Suffix free lo (i + 1) 0 :=
  ⟨by omega, fun p _ _ => by omega, Or.inr (by simpa using taken)⟩

theorem Suffix.extend (suffix : Suffix free lo i c) (clear : free i = true) : Suffix free lo (i + 1) (c + 1) := by
  have fits := suffix.fits
  refine ⟨by omega, ?_, ?_⟩
  · intro p low high
    by_cases last : p = i
    · rw [last]
      exact clear
    · exact suffix.window p (by omega) (by omega)
  · rcases suffix.maximal with full | stop
    · left; omega
    · right
      rw [show i + 1 - (c + 1) - 1 = i - c - 1 by omega]
      exact stop

theorem Suffix.hasWindow_iff (suffix : Suffix free lo (i + 1) c) : HasWindow free lo (i + 1) n ↔ HasWindow free lo i n ∨ n ≤ c := by
  have fits := suffix.fits
  constructor
  · rintro ⟨first, low, high, window⟩
    by_cases inside : first + n ≤ i
    · exact Or.inl ⟨first, low, inside, window⟩
    · right
      by_contra short
      rcases suffix.maximal with full | stop
      · omega
      · have clear := window (i + 1 - c - 1) (by omega) (by omega)
        rw [stop] at clear
        cases clear
  · rintro (⟨first, low, high, window⟩ | short)
    · exact ⟨first, low, by omega, window⟩
    · refine ⟨i + 1 - n, by omega, by omega, fun p low high => ?_⟩
      exact suffix.window p (by omega) (by omega)

theorem not_hasWindow_empty (pos : 0 < n) : ¬HasWindow free lo lo n := by
  rintro ⟨first, low, high, -⟩
  omega

/-- A window inside `[lo, hi)` lies before a cut, after it, or across it. -/
theorem hasWindow_split (cut : Nat) (low : lo ≤ cut) (high : cut ≤ hi) :
    HasWindow free lo hi n ↔ HasWindow free lo cut n ∨ HasWindow free cut hi n ∨
      ∃ first, lo ≤ first ∧ first + n ≤ hi ∧ first < cut ∧ cut < first + n ∧
        Window free first n := by
  constructor
  · rintro ⟨first, lowFirst, highFirst, window⟩
    by_cases before : first + n ≤ cut
    · exact Or.inl ⟨first, lowFirst, before, window⟩
    · by_cases after : cut ≤ first
      · exact Or.inr (Or.inl ⟨first, after, highFirst, window⟩)
      · exact Or.inr (Or.inr ⟨first, lowFirst, highFirst, by omega, by omega, window⟩)
  · rintro (⟨first, a, b, window⟩ | ⟨first, a, b, window⟩ | ⟨first, a, b, -, -, window⟩)
    · exact ⟨first, a, by omega, window⟩
    · exact ⟨first, by omega, b, window⟩
    · exact ⟨first, a, b, window⟩

end Xos.Lib
