import Mathlib.Data.Nat.Bitwise
import Mathlib.Tactic.Ring

/-!
# Fixed-width machine words

Unsigned words are natural numbers below a power of two. An operation that can leave the range is followed by an explicit
reduction.
-/
namespace Xos.Word

@[irreducible] def u64 (n : Nat) : Nat := n % 2 ^ 64

@[irreducible] def u32 (n : Nat) : Nat := n % 2 ^ 32

@[irreducible] def sub64 (a b : Nat) : Nat := if b ≤ a then a - b else 2 ^ 64 - (b - a)

@[irreducible] def sub32 (a b : Nat) : Nat := if b ≤ a then a - b else 2 ^ 32 - (b - a)

def i32 (n : Nat) : Int := if n % 2 ^ 32 < 2 ^ 31 then n % 2 ^ 32 else (n % 2 ^ 32 : Nat) - 2 ^ 32

def sext64 (i : Int) : Nat := (i % 2 ^ 64).toNat

variable {n : Nat}

theorem u64_of_lt (bound : n < 2 ^ 64) : u64 n = n := by
  unfold u64
  exact Nat.mod_eq_of_lt bound

theorem u64_lt (n : Nat) : u64 n < 2 ^ 64 := by
  unfold u64
  exact Nat.mod_lt _ (by norm_num)

theorem u64_sub_of_le (le : 2 ^ 64 ≤ n) (bound : n < 2 ^ 65) : u64 n = n - 2 ^ 64 := by
  unfold u64
  omega

theorem u32_of_lt (bound : n < 2 ^ 32) : u32 n = n := by
  unfold u32
  exact Nat.mod_eq_of_lt bound

theorem u32_lt (n : Nat) : u32 n < 2 ^ 32 := by
  unfold u32
  exact Nat.mod_lt _ (by norm_num)

variable {a b : Nat}

theorem sub64_of_le (le : b ≤ a) : sub64 a b = a - b := by
  unfold sub64
  exact if_pos le

theorem sub64_of_lt (lt : a < b) : sub64 a b = 2 ^ 64 - (b - a) := by
  unfold sub64
  exact if_neg (by omega)

theorem u64_add (a b : Nat) : u64 (u64 a + b) = u64 (a + b) := by
  unfold u64
  exact Nat.mod_add_mod a _ b

theorem sub64_u64 (le : b ≤ a) (bound : b < 2 ^ 64) : sub64 (u64 a) b = u64 (a - b) := by
  unfold sub64 u64
  split <;> omega

theorem i32_of_lt (bound : n < 2 ^ 31) : i32 n = n := by
  have small : n % 2 ^ 32 = n := Nat.mod_eq_of_lt (by omega)
  unfold i32
  rw [small, if_pos bound]
  omega

theorem sext64_natCast (bound : n < 2 ^ 64) : sext64 n = n := by
  unfold sext64
  omega

theorem and_field (n k m : Nat) : n &&& ((2 ^ k - 1) <<< m) = (n / 2 ^ m % 2 ^ k) * 2 ^ m := by
  rw [← Nat.shiftLeft_eq, ← Nat.shiftRight_eq_div_pow]
  apply Nat.eq_of_testBit_eq
  intro i
  simp only [Nat.testBit_and, Nat.testBit_shiftLeft, Nat.testBit_two_pow_sub_one,
    Nat.testBit_mod_two_pow, Nat.testBit_shiftRight]
  by_cases low : m ≤ i
  · rw [show m + (i - m) = i by omega]
    simp [low, Bool.and_comm]
  · simp [low]

theorem and_low (n k : Nat) : n &&& (2 ^ k - 1) = n % 2 ^ k := Nat.and_two_pow_sub_one_eq_mod n k

theorem or_low {k : Nat} (aligned : a % 2 ^ k = 0) (bound : b < 2 ^ k) : a ||| b = a + b := by
  obtain ⟨c, rfl⟩ := Nat.dvd_of_mod_eq_zero aligned
  rw [Nat.two_pow_add_eq_or_of_lt bound]

end Xos.Word
