import Mathlib.Data.Nat.Sqrt
import Mathlib.Tactic.Linarith
import Xos.Lib.Outcome

/-!
# Integer square roots (`gfx_isqrt` of `user/lib/gfx.h`)

Newton's iteration from above in 32 bits, which is the one of `Nat.sqrt` as long as nothing wraps.
-/
namespace Xos.Graphics

open Nat

/-- A sum in `uint`. It stops if it wraps, so that code that returns has not wrapped. -/
def addUint (a b : Nat) : Outcome Nat := if a + b < 2 ^ 32 then pure (a + b) else throw (.panic "overflow")

/-- The loop of `gfx_isqrt`, for at most as many rounds. -/
def gfxIsqrtLoop (n : Nat) : Nat → Nat → Nat → Outcome Nat
  | 0, _, _ => throw .diverges
  | rounds + 1, x, y =>
    if y < x then
      if y = 0 then throw (.panic "divide error")
      else do
        let sum ← addUint y (n / y)
        gfxIsqrtLoop n rounds y (sum / 2)
    else pure x

def gfxIsqrt (rounds n : Nat) : Outcome Nat :=
  if n = 0 then pure 0
  else do
    let sum ← addUint n 1
    gfxIsqrtLoop n rounds n (sum / 2)

section Loop

variable {n x : Nat} (low : 0 < x) (high : x ≤ n)
include low high

/-- The two factors are at least one, so their sum is at most their product and one. -/
theorem add_quotient_le : x + n / x ≤ n + 1 := by
  obtain ⟨a, ha⟩ := Nat.exists_eq_add_of_le' low
  obtain ⟨b, hb⟩ := Nat.exists_eq_add_of_le' ((Nat.one_le_div_iff low).mpr high)
  have product : x * (n / x) ≤ n := Nat.mul_div_le n x
  rw [hb, ha] at *
  nlinarith

omit high in
/-- The mean of `x` and `n / x` is not below the root. -/
theorem sqrt_le_mean : sqrt n ≤ (x + n / x) / 2 := by
  have product : n < x * (n / x + 1) := Nat.lt_mul_div_succ n low
  refine Nat.lt_succ_iff.mp (sqrt_lt.mpr ?_)
  have mean : x + (n / x + 1) ≤ 2 * succ ((x + n / x) / 2) := by omega
  nlinarith [Nat.mul_le_mul mean mean, four_mul_le_sq_add x (n / x + 1)]

theorem gfxIsqrtLoop_eq_sqrt (above : sqrt n ≤ x) (small : n + 1 < 2 ^ 32) {rounds : Nat} (enough : x < rounds) :
    gfxIsqrtLoop n rounds x ((x + n / x) / 2) = .ok (sqrt n) := by
  induction rounds generalizing x with
  | zero => omega
  | succ rounds ih =>
    have quotient := (Nat.one_le_div_iff low).mpr high
    rw [gfxIsqrtLoop]
    split
    next less =>
      have positive : 0 < (x + n / x) / 2 := by omega
      have fits := add_quotient_le positive (less.le.trans high)
      rw [if_neg positive.ne', addUint, if_pos (by omega)]
      exact ih positive (less.le.trans high) (sqrt_le_mean low) (by omega)
    next done =>
      have root : x ≤ sqrt n := le_sqrt.mpr ((Nat.le_div_iff_mul_le low).mp (by omega))
      rw [above.antisymm root]
      rfl

end Loop

theorem gfxIsqrt_greatest {n rounds : Nat} (small : n < 2 ^ 32 - 1) (enough : n < rounds) :
    ∃ r, gfxIsqrt rounds n = .ok r ∧ r * r ≤ n ∧ ∀ s, s * s ≤ n → s ≤ r := by
  refine ⟨sqrt n, ?_, sqrt_le n, fun _ => le_sqrt.mpr⟩
  rw [gfxIsqrt]
  split
  next zero => rw [zero, sqrt_zero]; rfl
  next nonzero =>
    have start : n + 1 = n + n / n := by rw [Nat.div_self (by omega)]
    rw [addUint, if_pos (by omega), start]
    exact gfxIsqrtLoop_eq_sqrt (by omega) le_rfl (sqrt_le_self n) (by omega) enough

theorem gfxIsqrt_largest_argument : ∃ r, gfxIsqrt (2 ^ 32) (2 ^ 32 - 2) = .ok r ∧
    r * r ≤ 2 ^ 32 - 2 ∧ ∀ s, s * s ≤ 2 ^ 32 - 2 → s ≤ r :=
  gfxIsqrt_greatest (by decide) (by decide)

end Xos.Graphics
