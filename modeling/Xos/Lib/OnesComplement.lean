import Mathlib.Data.Nat.ModEq

/-!
# One's-complement sums

Words of a base `b` are added with the carry brought back in at the bottom. A sum is then known modulo `b - 1`, and is
zero only when all words are.
-/
namespace Xos.Lib.OnesComplement

variable {b m n : Nat}

def add (b m n : Nat) : Nat := if m + n < b then m + n else m + n + 1 - b

def sum (b : Nat) (words : List Nat) : Nat := words.foldl (add b) 0

/-- The word that a number comes to when its carries are brought around. -/
def fold (b n : Nat) : Nat := if n = 0 then 0 else (n - 1) % (b - 1) + 1

theorem fold_pos (pos : n ≠ 0) : fold b n = (n - 1) % (b - 1) + 1 := if_neg pos

theorem fold_lt (base : 2 ≤ b) (n : Nat) : fold b n < b := by
  rw [fold]
  split
  next => omega
  next =>
    have := Nat.mod_lt (n - 1) (show 0 < b - 1 by omega)
    omega

theorem fold_of_lt (small : n < b) : fold b n = n := by
  rw [fold]
  split
  next zero => exact zero.symm
  next pos =>
    rw [Nat.mod_eq_of_lt (by omega)]
    omega

theorem fold_eq_zero : fold b n = 0 ↔ n = 0 := by
  rw [fold]
  split
  next zero => simp [zero]
  next pos => simp [pos]

theorem fold_modEq (b n : Nat) : fold b n ≡ n [MOD b - 1] := by
  rw [fold]
  split
  next zero => rw [zero]
  next pos =>
    have last : n - 1 + 1 = n := Nat.succ_pred_eq_of_ne_zero pos
    have := (Nat.mod_modEq (n - 1) (b - 1)).add_right 1
    rwa [last] at this

/-- Two numbers come to the same word when they are the same modulo `b - 1` and neither or both are zero. -/
theorem fold_congr (zero : m = 0 ↔ n = 0) (same : m ≡ n [MOD b - 1]) : fold b m = fold b n := by
  by_cases empty : n = 0
  · rw [empty, zero.mpr empty]
  · have other : m ≠ 0 := fun null => empty (zero.mp null)
    rw [fold_pos other, fold_pos empty]
    have shifted : m - 1 + 1 ≡ n - 1 + 1 [MOD b - 1] := by
      rwa [show m - 1 + 1 = m by omega, show n - 1 + 1 = n by omega]
    have before : m - 1 ≡ n - 1 [MOD b - 1] := shifted.add_right_cancel' 1
    exact congrArg (· + 1) before

theorem fold_add_left (b m n : Nat) : fold b (fold b m + n) = fold b (m + n) := by
  apply fold_congr
  · have := fold_eq_zero (b := b) (n := m)
    omega
  · exact (fold_modEq b m).add_right n

theorem fold_carries (base : 2 ≤ b) (n : Nat) : fold b (n % b + n / b) = fold b n := by
  have whole := Nat.mod_add_div n b
  apply fold_congr
  · constructor
    · intro empty
      obtain ⟨low, high⟩ := Nat.add_eq_zero_iff.mp empty
      rw [← whole, low, high, Nat.mul_zero]
    · intro empty
      simp [empty]
  · have unit : b ≡ 1 [MOD b - 1] := Nat.modEq_sub (show 1 ≤ b by omega)
    have carried : n % b + b * (n / b) ≡ n % b + n / b [MOD b - 1] := by
      have := (unit.mul_right (n / b)).add_left (n % b)
      rwa [Nat.one_mul] at this
    rw [whole] at carried
    exact carried.symm

theorem add_eq_fold (left : m < b) (right : n < b) : add b m n = fold b (m + n) := by
  rw [add]
  split
  next small => exact (fold_of_lt small).symm
  next carry =>
    rw [fold_pos (by omega), show m + n - 1 = m + n - b + (b - 1) by omega, Nat.add_mod_right,
      Nat.mod_eq_of_lt (by omega)]
    omega

theorem sum_eq_fold (base : 2 ≤ b) (words : List Nat) (small : ∀ word ∈ words, word < b) : sum b words = fold b words.sum := by
  have from_start (start : Nat) : words.foldl (add b) (fold b start) = fold b (start + words.sum) := by
    induction words generalizing start with
    | nil => simp
    | cons word words ih =>
      rw [List.foldl_cons, add_eq_fold (fold_lt base start) (small word (by simp)), fold_add_left,
        ih (fun other inside => small other (by simp [inside])), List.sum_cons, Nat.add_assoc]
  have := from_start 0
  rwa [fold_of_lt (by omega), Nat.zero_add] at this

theorem fold_eq_ones (base : 2 ≤ b) : fold b n = b - 1 ↔ n ≠ 0 ∧ n ≡ 0 [MOD b - 1] := by
  constructor
  · intro ones
    refine ⟨fun zero => ?_, ?_⟩
    · rw [zero, fold_of_lt (by omega)] at ones
      omega
    · have := fold_modEq b n
      rw [ones] at this
      exact this.symm.trans (Nat.modEq_zero_iff_dvd.mpr (Nat.dvd_refl _))
  · rintro ⟨pos, multiple⟩
    have ones : b - 1 ≡ 0 [MOD b - 1] := Nat.modEq_zero_iff_dvd.mpr (Nat.dvd_refl _)
    rw [fold_congr (n := b - 1) (by omega) (multiple.trans ones.symm), fold_of_lt (by omega)]

/-- The complement of one sum makes another one up to all ones just when the two are the same modulo
`b - 1`. -/
theorem complement_iff (base : 2 ≤ b) (pos : m ≠ 0) : fold b (m + (b - 1 - fold b n)) = b - 1 ↔ m ≡ n [MOD b - 1] := by
  have bound := fold_lt base n
  have balance : m + (b - 1 - fold b n) + fold b n = m + (b - 1) := by omega
  have whole : m + (b - 1) ≡ m [MOD b - 1] := by simp
  rw [fold_eq_ones base, and_iff_right (by omega)]
  constructor
  · intro multiple
    have filled := multiple.add_right (fold b n)
    rw [balance, Nat.zero_add] at filled
    exact whole.symm.trans (filled.trans (fold_modEq b n))
  · intro same
    have filled : m + (b - 1 - fold b n) + fold b n ≡ 0 + fold b n [MOD b - 1] := by
      rw [balance, Nat.zero_add]
      exact whole.trans (same.trans (fold_modEq b n).symm)
    exact filled.add_right_cancel' _

theorem fold_add_complement (base : 2 ≤ b) (n : Nat) : fold b (n + (b - 1 - fold b n)) = b - 1 := by
  by_cases zero : n = 0
  · rw [zero, fold_of_lt (n := 0) (by omega), Nat.zero_add, Nat.sub_zero, fold_of_lt (by omega)]
  · exact (complement_iff base zero).mpr rfl

end Xos.Lib.OnesComplement
