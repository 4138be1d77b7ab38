import Mathlib.Algebra.Group.Nat.Defs
import Mathlib.Data.List.GetD
import Mathlib.Data.Nat.Basic

/-!
# Byte-addressed memory

Memory is a function from addresses to bytes. Numbers are stored with their low byte first.
A load depends only on the bytes it reads and a store changes only the bytes it writes.
-/
namespace Xos.Lib

abbrev Bytes := Nat → BitVec 8

namespace Bytes

variable (m m' : Bytes) (a b n k v : Nat)

/-- The number in the `n` bytes at `a`. -/
def load (m : Bytes) (a : Nat) : Nat → Nat
  | 0 => 0
  | n + 1 => (m a).toNat + 256 * load m (a + 1) n

/-- Overwrites the `n` bytes at `a` with the low bytes of `v`. -/
def store (m : Bytes) (a n v : Nat) : Bytes := fun x =>
  if a ≤ x ∧ x < a + n then BitVec.ofNat 8 (v / 256 ^ (x - a)) else m x

theorem store_outside {x : Nat} (outside : x < a ∨ a + n ≤ x) : m.store a n v x = m x := by
  unfold store
  exact if_neg (by omega)

/-- Overwrites the bytes at `a` with a list of bytes. -/
def copy (m : Bytes) (a : Nat) (bytes : List (BitVec 8)) : Bytes := fun x =>
  if a ≤ x ∧ x < a + bytes.length then bytes.getD (x - a) 0 else m x

variable {bytes : List (BitVec 8)}

theorem copy_outside {x : Nat} (outside : x < a ∨ a + bytes.length ≤ x) : m.copy a bytes x = m x := by
  unfold copy
  exact if_neg (by omega)

theorem copy_inside {j : Nat} (inside : j < bytes.length) : m.copy a bytes (a + j) = bytes.getD j 0 := by
  rw [copy, if_pos (by omega), Nat.add_sub_cancel_left]

theorem copy_append (front rear : List (BitVec 8)) : (m.copy a front).copy (a + front.length) rear = m.copy a (front ++ rear) := by
  funext x
  have length : (front ++ rear).length = front.length + rear.length := List.length_append
  by_cases behind : a + front.length ≤ x ∧ x < a + front.length + rear.length
  · rw [copy, if_pos behind, copy, if_pos (by omega), List.getD_append_right _ _ _ _ (by omega), Nat.sub_sub]
  · rw [copy, if_neg behind]
    by_cases inside : a ≤ x ∧ x < a + front.length
    · rw [copy, if_pos inside, copy, if_pos (by omega), List.getD_append _ _ _ _ (by omega)]
    · rw [copy, if_neg inside, copy, if_neg (by omega)]

@[simp] theorem copy_nil : m.copy a [] = m := by
  funext x
  rw [copy, if_neg (by simp)]

/-- The `n` bytes at `a`. -/
def slice (m : Bytes) (a n : Nat) : List (BitVec 8) := (List.range n).map fun i => m (a + i)

@[simp] theorem length_slice : (m.slice a n).length = n := by simp [slice]

theorem slice_add : m.slice a (n + k) = m.slice a n ++ m.slice (a + n) k := by
  simp [slice, List.range_add, Nat.add_assoc]

theorem slice_copy (inside : n ≤ bytes.length) : (m.copy a bytes).slice a n = bytes.take n := by
  apply List.ext_getElem
  · simp [Nat.min_eq_left inside]
  · intro j here _
    have below : j < bytes.length := by
      rw [length_slice] at here
      omega
    simp [slice, copy_inside m a below, below]

theorem load_lt : m.load a n < 256 ^ n := by
  induction n generalizing a with
  | zero => exact Nat.one_pos
  | succ n ih =>
    have rest := ih (a + 1)
    rw [load, Nat.pow_succ]
    omega

theorem load_congr {m m' : Bytes} {a n : Nat} (agree : ∀ x, a ≤ x → x < a + n → m' x = m x) : m'.load a n = m.load a n := by
  induction n generalizing a with
  | zero => rfl
  | succ n ih =>
    rw [load, load, agree a le_rfl (by omega),
      ih (fun x low high => agree x (by omega) (by omega))]

theorem load_store_same : (m.store a n v).load a n = v % 256 ^ n := by
  induction n generalizing a v with
  | zero => rw [load, Nat.pow_zero, Nat.mod_one]
  | succ n ih =>
    -- the tail of this store is the store of the remaining bytes
    have tail : (m.store a (n + 1) v).load (a + 1) n = (m.store (a + 1) n (v / 256)).load (a + 1) n := by
      apply load_congr
      intro x low high
      unfold store
      rw [if_pos (by omega), if_pos (by omega), Nat.div_div_eq_div_mul, ← Nat.pow_succ']
      congr 3
      omega
    have head : (m.store a (n + 1) v a).toNat = v % 256 := by
      unfold store
      rw [if_pos (by omega), Nat.sub_self, Nat.pow_zero, Nat.div_one, BitVec.toNat_ofNat]
    rw [load, head, tail, ih, Nat.pow_succ', Nat.mod_mul]

/-- The `n` low bytes of a number, the lowest first. -/
def littleEndian (n v : Nat) : List (BitVec 8) := (List.range n).map fun i => BitVec.ofNat 8 (v / 256 ^ i)

@[simp] theorem length_littleEndian : (littleEndian n v).length = n := by simp [littleEndian]

theorem load_littleEndian {m : Bytes} {a n v : Nat} (held : ∀ j, j < n → m (a + j) = (littleEndian n v).getD j 0) :
    m.load a n = v % 256 ^ n := by
  rw [← load_store_same m a n v]
  apply load_congr
  intro x low high
  obtain ⟨j, rfl⟩ := Nat.exists_eq_add_of_le low
  rw [held j (by omega), store, if_pos (by omega), Nat.add_sub_cancel_left, littleEndian]
  simp [show j < n by omega]

theorem getD_flatMap_littleEndian (values : List Nat) {j q : Nat} (inside : j < values.length) (within : q < n) :
    (values.flatMap (littleEndian n)).getD (n * j + q) 0 = (littleEndian n (values.getD j 0)).getD q 0 := by
  induction values generalizing j with
  | nil => exact absurd inside (Nat.not_lt_zero j)
  | cons value rest ih =>
    rw [List.flatMap_cons]
    cases j with
    | zero => rw [Nat.mul_zero, Nat.zero_add, List.getD_append _ _ _ _ (by simpa using within), List.getD_cons_zero]
    | succ j =>
      have index : n * (j + 1) + q = (littleEndian n value).length + (n * j + q) := by
        rw [length_littleEndian, Nat.mul_succ]
        omega
      rw [index, List.getD_append_right _ _ _ _ (Nat.le_add_right _ _), Nat.add_sub_cancel_left, List.getD_cons_succ,
        ih (Nat.lt_of_succ_lt_succ inside)]

theorem load_store_of_disjoint (apart : b + k ≤ a ∨ a + n ≤ b) : (m.store a n v).load b k = m.load b k := by
  apply load_congr
  intro x low high
  exact store_outside m a n v (by omega)

end Bytes
end Xos.Lib
