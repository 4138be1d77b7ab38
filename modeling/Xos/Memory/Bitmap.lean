import Xos.Memory.Pmm

/-!
# The bitmap, bit by bit

The byte operations of `pmm.c` are one-bit updates of the predicate `Pmm.bit`. Everything
above this module speaks of bits; the bytes do not appear again.
-/
namespace Xos.Memory

open Word Outcome Pmm BitVec

/-- The bit of a page: set when the page is in use. -/
def Pmm.bit (s : Pmm) (page : Nat) : Bool := (s.bitmap (page / 8)).getLsbD (page % 8)

def Pmm.isFree (s : Pmm) (page : Nat) : Bool := !s.bit page

/-- The state after `bitmap_set`. -/
def Pmm.mark (s : Pmm) (page : Nat) : Pmm :=
  s.setByte (page / 8) (s.bitmap (page / 8) ||| (1#8 <<< (page % 8)))

/-- The state after `bitmap_clear`. -/
def Pmm.unmark (s : Pmm) (page : Nat) : Pmm :=
  s.setByte (page / 8) (s.bitmap (page / 8) &&& ~~~(1#8 <<< (page % 8)))

/-- The state after `bitmap_set` on `n` pages from `first` on. -/
def Pmm.markRange (s : Pmm) (first : Nat) : Nat → Pmm
  | 0 => s
  | n + 1 => (s.mark first).markRange (first + 1) n

theorem shifted_one_bit (k i : Nat) (bound : i < 8) : (1#8 <<< k).getLsbD i = decide (i = k) := by
  rw [getLsbD_shiftLeft]
  by_cases before : i < k
  · simp [before, show i ≠ k by omega]
  · by_cases same : i = k
    · simp [same, show k < 8 by omega]
    · have later : i - k ≠ 0 := by omega
      simp [bound, same, getLsbD_one, later]

theorem page_eq_iff (p q : Nat) : q = p ↔ q / 8 = p / 8 ∧ q % 8 = p % 8 := by omega

@[simp] theorem Pmm.bit_mark (s : Pmm) (p q : Nat) : (s.mark p).bit q = (decide (q = p) || s.bit q) := by
  unfold mark bit setByte
  by_cases byte : q / 8 = p / 8
  · simp only [byte, if_true, getLsbD_or,
      shifted_one_bit _ _ (Nat.mod_lt q (by norm_num)), page_eq_iff p q, true_and]
    exact Bool.or_comm _ _
  · have differ : q ≠ p := fun same => byte (by rw [same])
    simp [if_neg byte, differ]

@[simp] theorem Pmm.bit_unmark (s : Pmm) (p q : Nat) : (s.unmark p).bit q = (!decide (q = p) && s.bit q) := by
  unfold unmark bit setByte
  by_cases byte : q / 8 = p / 8
  · have low := Nat.mod_lt q (show 8 > 0 by norm_num)
    simp only [byte, if_true, getLsbD_and, getLsbD_not, shifted_one_bit _ _ low,
      page_eq_iff p q, true_and, low, decide_true, Bool.true_and]
    exact Bool.and_comm _ _
  · have differ : q ≠ p := fun same => byte (by rw [same])
    simp [if_neg byte, differ]

@[simp] theorem Pmm.bit_markRange (s : Pmm) (first n q : Nat) :
    (s.markRange first n).bit q = (decide (first ≤ q ∧ q < first + n) || s.bit q) := by
  induction n generalizing s first with
  | zero => simp [markRange, show ¬(first ≤ q ∧ q < first) by omega]
  | succ n ih =>
    rw [markRange, ih, bit_mark, ← Bool.or_assoc, ← Bool.decide_or]
    congr 2
    apply propext
    omega

section Frame

variable (s : Pmm) (page first n : Nat)

@[simp] theorem Pmm.mark_pageCount : (s.mark page).pageCount = s.pageCount := rfl
@[simp] theorem Pmm.mark_bitmapSize : (s.mark page).bitmapSize = s.bitmapSize := rfl
@[simp] theorem Pmm.mark_usedMemory : (s.mark page).usedMemory = s.usedMemory := rfl
@[simp] theorem Pmm.unmark_pageCount : (s.unmark page).pageCount = s.pageCount := rfl
@[simp] theorem Pmm.unmark_bitmapSize : (s.unmark page).bitmapSize = s.bitmapSize := rfl
@[simp] theorem Pmm.unmark_lastIndex : (s.unmark page).lastIndex = s.lastIndex := rfl
@[simp] theorem Pmm.unmark_usedMemory : (s.unmark page).usedMemory = s.usedMemory := rfl

@[simp] theorem Pmm.markRange_pageCount : (s.markRange first n).pageCount = s.pageCount := by
  induction n generalizing s first with
  | zero => rfl
  | succ n ih => rw [markRange, ih, mark_pageCount]

@[simp] theorem Pmm.markRange_bitmapSize : (s.markRange first n).bitmapSize = s.bitmapSize := by
  induction n generalizing s first with
  | zero => rfl
  | succ n ih => rw [markRange, ih, mark_bitmapSize]

@[simp] theorem Pmm.markRange_usedMemory : (s.markRange first n).usedMemory = s.usedMemory := by
  induction n generalizing s first with
  | zero => rfl
  | succ n ih => rw [markRange, ih, mark_usedMemory]

end Frame

theorem bitmapTest_eq (s : Pmm) (page : Nat) : bitmapTest s page =
    if page / 8 < s.bitmapSize then .ok (s.bit page) else .error (.outOfBounds (page / 8)) := by
  unfold bitmapTest byte
  split
  · simp only [pure_eq_ok, ok_bind, Except.ok.injEq, bit]
    rw [and_one_eq_setWidth_ofBool_getLsbD, getLsbD_ushiftRight, Nat.add_zero]
    cases (s.bitmap (page / 8)).getLsbD (page % 8) <;> decide
  · rfl

theorem bitmapSet_eq (s : Pmm) (page : Nat) : bitmapSet s page =
    if page / 8 < s.bitmapSize then .ok (s.mark page) else .error (.outOfBounds (page / 8)) := by
  unfold bitmapSet byte
  split <;> rfl

theorem bitmapClear_eq (s : Pmm) (page : Nat) : bitmapClear s page =
    if page / 8 < s.bitmapSize then .ok (s.unmark page) else .error (.outOfBounds (page / 8)) := by
  unfold bitmapClear byte
  split <;> rfl

theorem bitmapSetRange_eq (s : Pmm) (first n : Nat) (inside : first + n ≤ 8 * s.bitmapSize) :
    bitmapSetRange s first n = .ok (s.markRange first n) := by
  induction n generalizing s first with
  | zero => rfl
  | succ n ih =>
    rw [bitmapSetRange, bitmapSet_eq, if_pos (by omega), ok_bind,
      ih _ _ (by rw [mark_bitmapSize]; omega), markRange]

end Xos.Memory
