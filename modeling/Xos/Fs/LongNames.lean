import Xos.Fs.Walk

/-!
# Long names put together

The pieces of a long name come with the last one first, and each is written to the place that its number
says. When all of them have come, the name is in the buffer with a null byte behind it.
-/
namespace Xos.Fs

section Pieces

variable {units : List (BitVec 16)} {last k size : Nat} {e : DirEntry}

theorem sequence_bits : ∀ k, k < 20 → 0 < k → (BitVec.ofNat 8 k &&& lfnSequenceMask).toNat = k ∧
    BitVec.ofNat 8 k &&& lfnEntryLast = 0 ∧
    (BitVec.ofNat 8 (k + 0x40) &&& lfnSequenceMask).toNat = k ∧ BitVec.ofNat 8 (k + 0x40) &&& lfnEntryLast ≠ 0 := by decide

theorem sequence_bytes : ∀ k, k < 20 → 0 < k → ∀ marks ∈ [0x00, 0x40],
    BitVec.ofNat 8 (k + marks) ≠ 0x00 ∧ BitVec.ofNat 8 (k + marks) ≠ 0xE5 ∧ BitVec.ofNat 8 (k + marks) ≠ dot := by decide

section

variable (piece : LfnPiece units last (k + 1) e)
include piece

theorem LfnPiece.number (room : k + 1 < 20) :
    e.pieceNumber = k + 1 ∧ (e.sequenceNumber &&& lfnEntryLast = 0 ↔ k + 1 ≠ last) := by
  obtain ⟨plain, unmarked, number, marked⟩ := sequence_bits (k + 1) room (Nat.succ_pos k)
  rw [DirEntry.pieceNumber, piece.sequence]
  by_cases final : k + 1 = last
  · rw [if_pos final]
    exact ⟨number, iff_of_false marked (not_not.mpr final)⟩
  · rw [if_neg final]
    exact ⟨plain, iff_of_true unmarked final⟩

theorem LfnPiece.firstByte (room : k + 1 < 20) :
    e.name 0 ≠ 0x00 ∧ e.name 0 ≠ 0xE5 ∧ e.name 0 ≠ dot := by
  have first : e.name 0 = BitVec.ofNat 8 (if k + 1 = last then k + 1 + 0x40 else k + 1) := piece.sequence
  rw [first]
  split
  · exact sequence_bytes (k + 1) room (Nat.succ_pos k) 0x40 (by simp)
  · exact sequence_bytes (k + 1) room (Nat.succ_pos k) 0x00 (by simp)

/-- The pieces from `k + 1` on are in the buffer, and the null byte behind the last one. -/
structure Holds (units : List (BitVec 16)) (last k : Nat) (nameBuf : Nat → Byte) : Prop where
  chars : ∀ i, 13 * k ≤ i → i < 13 * last → nameBuf i = (units.getD i 0).setWidth 8
  ends : k < last → nameBuf (13 * last) = 0

theorem LfnPiece.write (inside : k + 1 ≤ last) (room : last < 20) (fits : last * 13 < size)
    {name : Nat → Byte} (holds : Holds units last (k + 1) name) :
    ∃ name', writePiece size e name = .ok name' ∧ Holds units last k name' := by
  obtain ⟨number, mark⟩ := piece.number (by omega)
  -- the null byte behind the name, which only the last piece writes
  obtain ⟨ended, written, same, ends⟩ : ∃ ended, endNameIn size e name (k + 1) = .ok ended ∧
      (∀ i, i < 13 * last → ended i = name i) ∧ ended (13 * last) = 0 := by
    unfold endNameIn
    by_cases final : k + 1 = last
    · rw [if_neg (fun unmarked => mark.mp unmarked final), if_neg (by omega), final, Nat.mul_comm]
      exact ⟨_, rfl, fun i before => Function.update_of_ne (by omega) _ _, Function.update_self ..⟩
    · rw [if_pos (mark.mpr final)]
      exact ⟨_, rfl, fun _ _ => rfl, holds.ends (by omega)⟩
  refine ⟨fun i => if (k + 1 - 1) * 13 ≤ i ∧ i < (k + 1) * 13 then (e.lfnChar (i - (k + 1 - 1) * 13)).setWidth 8 else ended i, ?_, ?_⟩
  · have parsed : parseLfnNameIn size e ended (k + 1) = .ok _ := if_neg (by omega)
    rw [DirEntry.pieceNumber] at number
    rw [writePiece, number, written, Outcome.ok_bind, parsed]
  · refine ⟨fun i low high => ?_, fun before => ?_⟩
    · by_cases here : i < (k + 1) * 13
      · have char := piece.chars (i - 13 * k) (by omega)
        rw [Nat.add_sub_cancel, Nat.add_sub_cancel' low] at char
        rw [if_pos (by omega), Nat.add_sub_cancel, Nat.mul_comm k, char]
      · rw [if_neg (by omega), same i high]
        exact holds.chars i (by omega) high
    · rw [if_neg (by omega)]
      exact ends

end

def writePieces (size : Nat) : List DirEntry → (Nat → Byte) → Outcome (Nat → Byte)
  | [], name => pure name
  | e :: rest, name => writePiece size e name >>= writePieces size rest

theorem LfnPieces.write {pieces : List DirEntry} (whole : LfnPieces units last k pieces) (inside : k ≤ last) (room : last < 20)
    (fits : last * 13 < size) (name : Nat → Byte) (holds : Holds units last k name) :
    ∃ name', writePieces size pieces name = .ok name' ∧ Holds units last 0 name' := by
  induction whole generalizing name with
  | nil => exact ⟨name, rfl, holds⟩
  | cons piece pieces ih =>
    obtain ⟨mid, written, next⟩ := piece.write inside room fits holds
    obtain ⟨name', rest, done⟩ := ih (by omega) mid next
    refine ⟨name', ?_, done⟩
    rw [writePieces, written, Outcome.ok_bind, rest]

end Pieces

theorem LongName.write {name : List (BitVec 16)} {pieces : List DirEntry} (holds : LongName name pieces) {size : Nat}
    (room : name.length ≤ 247) (fits : pieceCount name * 13 < size) (buf : Nat → Byte) :
    ∃ buf', writePieces size pieces buf = .ok buf' ∧ Spells buf' (lowBytes name) := by
  have long : 0 < name.length := List.length_pos_iff.mpr holds.nonempty
  have count : pieceCount name = (name.length + 12) / 13 := rfl
  obtain ⟨buf', written, chars, ends⟩ := holds.pieces.write le_rfl (by omega) fits buf
    ⟨fun i low high => by omega, fun before => absurd before (lt_irrefl _)⟩
  have length : (lowBytes name).length = name.length := by simp [lowBytes]
  refine ⟨buf', written, fun i inside => ?_, ?_⟩
  · rw [length] at inside
    rw [chars i (by omega) (by omega), paddedUnits, List.getD_append _ _ _ _ inside]
    simp [lowBytes, inside]
  · -- the null byte is a code unit of the last piece, or was put behind it if the name fills it
    rw [length]
    by_cases full : name.length < 13 * pieceCount name
    · rw [chars _ (by omega) full, paddedUnits, if_pos full, List.getD_append_right _ _ _ _ le_rfl, Nat.sub_self]
      rfl
    · have exact : name.length = 13 * pieceCount name := by omega
      rw [exact]
      exact ends (by omega)

end Xos.Fs
