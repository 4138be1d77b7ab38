import Xos.Net.Checksum
import Xos.Net.Icmp

/-!
# Checksums in either byte order

`tcp_checksum` adds words up the other way around than `ip_checksum` and swaps the result. Modulo `2 ^ 16 - 1` a swap is
a multiplication by 256.
-/
namespace Xos.Net

open Lib Word List OnesComplement

def memoryWords : List Byte → List Nat
  | low :: high :: rest => (low.toNat + 256 * high.toNat) :: memoryWords rest
  | [last] => [last.toNat]
  | [] => []

theorem memoryWords_sum_le (bytes : List Byte) : (memoryWords bytes).sum ≤ 65535 * ((bytes.length + 1) / 2) := by
  fun_induction memoryWords bytes with
  | case1 low high rest ih =>
    simp only [sum_cons, length_cons]
    omega
  | case2 last =>
    simp only [sum_cons, sum_nil, length_cons, length_nil]
    omega
  | case3 => simp

theorem addUshorts_eq {bytes : List Byte} {sum : Nat} (bound : sum + (memoryWords bytes).sum < 2 ^ 32) :
    addUshorts bytes sum = sum + (memoryWords bytes).sum := by
  fun_induction addUshorts bytes sum with
  | case1 sum low high rest ih =>
    simp only [memoryWords, sum_cons] at bound ⊢
    rw [u32_of_lt (by omega)] at ih
    rw [u32_of_lt (by omega), ih (by omega)]
    omega
  | case2 sum last =>
    simp only [memoryWords, sum_cons, sum_nil] at bound ⊢
    rw [u32_of_lt (by omega)]
    omega
  | case3 sum => rfl

theorem memoryWords_append {first : List Byte} (even : first.length % 2 = 0) (second : List Byte) :
    memoryWords (first ++ second) = memoryWords first ++ memoryWords second := by
  fun_induction memoryWords first with
  | case1 low high rest ih =>
    simp only [length_cons] at even
    rw [cons_append, cons_append, memoryWords, ih (by omega), cons_append]
  | case2 last => simp at even
  | case3 => rfl

theorem memoryWords_ushortBytes (x : BitVec 16) : memoryWords (ushortBytes x) = [x.toNat] := by
  have written := bytes_toNat x
  simp only [ushortBytes, memoryWords]
  congr 1
  omega

theorem words_sum_modEq (bytes : List Byte) : (words bytes).sum ≡ 256 * (memoryWords bytes).sum [MOD 2 ^ 16 - 1] := by
  fun_induction memoryWords bytes with
  | case1 low high rest ih =>
    simp only [words, sum_cons, Nat.ModEq] at ih ⊢
    omega
  | case2 last =>
    rfl
  | case3 => rfl

theorem words_sum_eq_zero (bytes : List Byte) : (words bytes).sum = 0 ↔ (memoryWords bytes).sum = 0 := by
  fun_induction memoryWords bytes with
  | case1 low high rest ih =>
    simp only [words, sum_cons]
    omega
  | case2 last =>
    simp only [words, sum_cons, sum_nil]
    omega
  | case3 => rfl

theorem htons_toNat (x : BitVec 16) : (htons x).toNat = 256 * (x.toNat % 256) + x.toNat / 256 := by
  have written := bytes_toNat (htons x)
  have swapped := htons_bytes x
  simp only [ushortBytes, List.cons.injEq, and_true] at swapped
  rw [swapped.1, swapped.2] at written
  simp only [BitVec.extractLsb'_toNat, Nat.shiftRight_eq_div_pow, Nat.reducePow, Nat.div_one] at written
  omega

theorem htons_fold (x : BitVec 16) : (htons x).toNat = fold (2 ^ 16) (256 * x.toNat) := by
  have swapped := htons_toNat x
  rw [← fold_of_lt (htons x).isLt]
  apply fold_congr
  · omega
  · rw [swapped]
    simp only [Nat.ModEq]
    omega

theorem htons_not_htons (x : BitVec 16) : htons (~~~(htons x)) = ~~~x := by
  apply BitVec.eq_of_toNat_eq
  rw [htons_toNat, BitVec.toNat_not, BitVec.toNat_not, htons_toNat]
  omega

def folded (bytes : List Byte) : BitVec 16 := BitVec.ofNat 16 (fold (2 ^ 16) (memoryWords bytes).sum)

theorem toNat_folded (bytes : List Byte) : (folded bytes).toNat = fold (2 ^ 16) (memoryWords bytes).sum := by
  rw [folded, BitVec.toNat_ofNat, Nat.mod_eq_of_lt (fold_lt (by decide) _)]

section Short

variable {data : List Byte} (short : data.length ≤ 65535)
include short

theorem ipChecksum_eq : ipChecksum data = .ok (~~~folded data) := by
  have bound := memoryWords_sum_le data
  rw [ipChecksum, addUshorts_eq (by omega), Nat.zero_add, foldCarries_eq (by omega)]
  rfl

theorem segmentChecksum_eq : segmentChecksum data 0 = .ok (~~~folded data) := by
  have bound := words_sum_le data
  rw [segmentChecksum, addWords_eq (by omega), Nat.zero_add, foldCarries_eq (by omega), Outcome.ok_bind, Outcome.pure_eq_ok]
  -- the sum of the swapped words folds to the swapped word of the sum
  have swapped : BitVec.ofNat 16 (fold (2 ^ 16) (words data).sum) = htons (folded data) := by
    apply BitVec.eq_of_toNat_eq
    rw [htons_fold, toNat_folded, BitVec.toNat_ofNat, Nat.mod_eq_of_lt (fold_lt (by decide) _)]
    apply fold_congr
    · rw [words_sum_eq_zero, ← fold_eq_zero (b := 2 ^ 16) (n := (memoryWords data).sum)]
      omega
    · exact (words_sum_modEq data).trans ((fold_modEq _ _).symm.mul_left 256)
  rw [swapped, htons_not_htons]

end Short

/-- A `ushort` stored in a buffer. -/
def storeUshort (data : List Byte) (offset : Nat) (value : BitVec 16) : List Byte :=
  data.take offset ++ ushortBytes value ++ data.drop (offset + 2)

theorem length_storeUshort {data : List Byte} {offset : Nat} (inside : offset + 2 ≤ data.length) (value : BitVec 16) :
    (storeUshort data offset value).length = data.length := by
  simp only [storeUshort, ushortBytes, length_append, length_take, length_cons, length_nil, length_drop]
  omega

theorem memoryWords_storeUshort {data : List Byte} {i : Nat} (inside : 2 * i + 2 ≤ data.length)
    (zeroed : (data.drop (2 * i)).take 2 = [0, 0]) (value : BitVec 16) :
    (memoryWords (storeUshort data (2 * i) value)).sum = (memoryWords data).sum + value.toNat := by
  have front : (data.take (2 * i)).length % 2 = 0 := by
    rw [length_take]
    omega
  have whole : data = data.take (2 * i) ++ (ushortBytes 0 ++ data.drop (2 * i + 2)) := by
    have zeros : ushortBytes 0 = (data.drop (2 * i)).take 2 := by
      rw [zeroed]
      decide
    rw [zeros, ← drop_drop, take_append_drop, take_append_drop]
  have sum (x : BitVec 16) : (memoryWords (data.take (2 * i) ++ (ushortBytes x ++ data.drop (2 * i + 2)))).sum =
      (memoryWords (data.take (2 * i))).sum + (x.toNat + (memoryWords (data.drop (2 * i + 2))).sum) := by
    have pair : (ushortBytes x).length % 2 = 0 := by simp [ushortBytes]
    rw [memoryWords_append front, memoryWords_append pair, memoryWords_ushortBytes, sum_append, sum_append,
      sum_singleton]
  rw [storeUshort, append_assoc, sum]
  have before := sum 0
  rw [← whole] at before
  have zero : (0 : BitVec 16).toNat = 0 := rfl
  omega

/-- All the checksums of a buffer are the same, and one that is stored in a zeroed word of the buffer makes
its checksum zero. -/
theorem checksums_agree (data : List Byte) (short : data.length ≤ 65535) :
    ∃ checksum, ipChecksum data = .ok checksum ∧ Icmp.checksum data = .ok checksum ∧ segmentChecksum data 0 = .ok checksum ∧
      ∀ i, data.length % 2 = 0 → 2 * i + 2 ≤ data.length → (data.drop (2 * i)).take 2 = [0, 0] →
        ipChecksum (storeUshort data (2 * i) checksum) = .ok 0 := by
  refine ⟨~~~folded data, ipChecksum_eq short, ipChecksum_eq short, segmentChecksum_eq short, fun i _ inside zeroed => ?_⟩
  rw [ipChecksum_eq (by rw [length_storeUshort inside]; exact short)]
  have ones : (folded (storeUshort data (2 * i) (~~~folded data))).toNat = 2 ^ 16 - 1 := by
    rw [toNat_folded, memoryWords_storeUshort inside zeroed, BitVec.toNat_not, toNat_folded]
    exact fold_add_complement (by decide) _
  congr 1
  apply BitVec.eq_of_toNat_eq
  rw [BitVec.toNat_not, ones]
  rfl

/-- The header of an echo request, whose checksum is 0xFFF7 in memory. -/
theorem echo_request_checksum : ∃ checksum, ipChecksum (Icmp.IcmpHeader.mk Icmp.icmpEchoRequest 0 0 0).bytes = .ok checksum ∧
    checksum = 0xFFF7 ∧ ipChecksum (Icmp.IcmpHeader.mk Icmp.icmpEchoRequest 0 checksum 0).bytes = .ok 0 := by
  obtain ⟨checksum, computed, -, -, stored⟩ :=
    checksums_agree (Icmp.IcmpHeader.mk Icmp.icmpEchoRequest 0 0 0).bytes (by decide)
  refine ⟨checksum, computed, ?_, stored 1 (by decide) (by decide) (by decide)⟩
  have value : ipChecksum (Icmp.IcmpHeader.mk Icmp.icmpEchoRequest 0 0 0).bytes = .ok 0xFFF7 := by decide +kernel
  exact Except.ok.inj (computed.symm.trans value)

end Xos.Net
