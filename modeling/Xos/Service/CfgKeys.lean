import Mathlib.Data.List.TakeWhile

/-!
# Keys of a configuration (`user/services/system/main.cpp`)

`next_line` looks for the end of the line and returns the next index, so `parse_cfg_key` tries all of them up to the
last line. The state of its loop is the text from `line_index` on.
-/
namespace Xos.Service

open List

abbrev Text := List Char

def parseCfgKey (key : Text) : Text → Option (Text)
  | [] => none
  | c :: rest =>
    if key.length + 2 > (c :: rest).length then none
    else if key <+: c :: rest ∧ (c :: rest)[key.length]? = some '=' then
      some (((c :: rest).drop (key.length + 1)).takeWhile (· ≠ '\n'))
    else if '\n' ∈ c :: rest then parseCfgKey key rest
    else none

def LineStart (text : Text) (i : Nat) : Prop := i = 0 ∨ text[i - 1]? = some '\n'

/-- The text from `i` on is the key, `=` and a nonempty rest. -/
def Entry (key text : Text) (i : Nat) (rest : Text) : Prop := text.drop i = key ++ '=' :: rest ∧ rest ≠ []

variable {key text value out : Text} {i : Nat}

theorem Entry.length (entry : Entry key text i value) : i + key.length + 2 ≤ text.length := by
  have same := congrArg List.length entry.1
  have := length_pos_iff.mpr entry.2
  simp at same
  omega

theorem test_iff : key.length + 2 ≤ text.length ∧ key <+: text ∧ text[key.length]? = some '=' ↔ ∃ value, Entry key text 0 value := by
  constructor
  · rintro ⟨long, ⟨rest, rfl⟩, sign⟩
    cases rest with
    | nil => simp at sign
    | cons c value =>
      obtain rfl : c = '=' := by simpa using sign
      exact ⟨value, rfl, by rintro rfl; simp at long⟩
  · rintro ⟨value, entry⟩
    have same : text = key ++ '=' :: value := entry.1
    exact ⟨by simpa using entry.length, ⟨_, same.symm⟩, by simp [same]⟩

/-- The indices that are tried: the first one, and those with a line break behind or right before them. -/
def Tried (text : Text) (i : Nat) : Prop := i = 0 ∨ '\n' ∈ text.drop (i - 1)

/-- The first index that has an entry. -/
def FirstEntry (key text : Text) (i : Nat) (value : Text) : Prop :=
  Entry key text i value ∧ ∀ j < i, ∀ value, ¬Entry key text j value

/-- What is copied is the rest of the line at the first index that has an entry. -/
theorem parseCfgKey_some (found : parseCfgKey key text = some out) :
    ∃ i value, Tried text i ∧ FirstEntry key text i value ∧ out = value.takeWhile (· ≠ '\n') := by
  induction text with
  | nil => cases found
  | cons c rest ih =>
    rw [parseCfgKey] at found
    split at found
    · cases found
    next long =>
      split at found
      next test =>
        obtain ⟨value, entry⟩ := test_iff.mp ⟨Nat.not_lt.mp long, test⟩
        have same : c :: rest = key ++ '=' :: value := entry.1
        refine ⟨0, value, .inl rfl, ⟨entry, fun j below => by omega⟩, ?_⟩
        rw [← Option.some.inj found, same]
        simp
      next test =>
        split at found
        next more =>
          obtain ⟨i, value, tried, ⟨entry, first⟩, copied⟩ := ih found
          refine ⟨i + 1, value, .inr ?_, ⟨entry, fun j below value here => ?_⟩, copied⟩
          · rcases tried with rfl | tried
            · exact more
            · cases i with
              | zero => exact mem_cons_of_mem _ tried
              | succ i => exact tried
          · cases j with
            | zero => exact test (test_iff.mpr ⟨value, here⟩).2
            | succ j => exact first j (by omega) value here
        · cases found

/-- The first entry is found if its index is tried. -/
theorem parseCfgKey_of_first (tried : Tried text i) (first : FirstEntry key text i value) :
    parseCfgKey key text = some (value.takeWhile (· ≠ '\n')) := by
  obtain ⟨entry, first⟩ := first
  induction text generalizing i with
  | nil => exact absurd entry.length (by simp)
  | cons c rest ih =>
    have long := entry.length
    rw [parseCfgKey, if_neg (by omega)]
    cases i with
    | zero =>
      have same : c :: rest = key ++ '=' :: value := entry.1
      rw [if_pos (test_iff.mpr ⟨value, entry⟩).2, same]
      simp
    | succ i =>
      have more : '\n' ∈ (c :: rest).drop i := tried.resolve_left i.succ_ne_zero
      rw [if_neg fun test => ?_, if_pos (mem_of_mem_drop more)]
      · refine ih ?_ entry fun j below value here => first (j + 1) (by omega) value here
        cases i with
        | zero => exact .inl rfl
        | succ i => exact .inr more
      · obtain ⟨value, here⟩ := test_iff.mp ⟨by omega, test⟩
        exact first 0 (by omega) value here

/-- No start of a line is passed over. -/
theorem parseCfgKey_none (missed : parseCfgKey key text = none) (start : LineStart text i) : ¬Entry key text i value := by
  intro entry
  induction text generalizing i with
  | nil => exact absurd entry.length (by simp)
  | cons c rest ih =>
    have long := entry.length
    rw [parseCfgKey, if_neg (by omega)] at missed
    split at missed
    · cases missed
    next test =>
      cases i with
      | zero => exact test (test_iff.mpr ⟨value, entry⟩).2
      | succ i =>
        have newline : (c :: rest)[i]? = some '\n' := start.resolve_left i.succ_ne_zero
        rw [if_pos (mem_of_getElem? newline)] at missed
        refine ih missed ?_ entry
        cases i with
        | zero => exact .inl rfl
        | succ i => exact .inr newline

/-- The first start of a line that has an entry. -/
def FirstLine (key text : Text) (i : Nat) (value : Text) : Prop :=
  LineStart text i ∧ Entry key text i value ∧ ∀ j < i, LineStart text j → ∀ value, ¬Entry key text j value

/-- `parse_cfg_key` gives the entry of the first line that has one exactly if the first place with the key, `=` and a
rest, unless it is in a last line without a line break, has the same rest of the line as that entry, as it does if it is
a start of a line. -/
theorem parseCfgKey_exact (key text : Text) :
    ((parseCfgKey key text).isSome ↔ ∃ i value, LineStart text i ∧ Entry key text i value) ∧
        (∀ out, parseCfgKey key text = some out →
          ∃ i value, FirstLine key text i value ∧ out = value.takeWhile (· ≠ '\n')) ↔
      ∀ i value, FirstEntry key text i value → '\n' ∈ text.drop i →
        ∃ j value', FirstLine key text j value' ∧ value'.takeWhile (· ≠ '\n') = value.takeWhile (· ≠ '\n') := by
  constructor
  · rintro ⟨-, copied⟩ i value first more
    have tried : Tried text i := by
      refine .inr ?_
      rw [show text.drop i = (text.drop (i - 1)).drop (i - (i - 1)) by rw [drop_drop]; congr 1; omega] at more
      exact mem_of_mem_drop more
    obtain ⟨j, value', line, same⟩ := copied _ (parseCfgKey_of_first tried first)
    exact ⟨j, value', line, same.symm⟩
  · intro agrees
    have line {out : Text} (found : parseCfgKey key text = some out) :
        ∃ i value, FirstLine key text i value ∧ out = value.takeWhile (· ≠ '\n') := by
      obtain ⟨i, value, tried, first, rfl⟩ := parseCfgKey_some found
      by_cases more : '\n' ∈ text.drop i
      · obtain ⟨j, value', line, same⟩ := agrees i value first more
        exact ⟨j, value', line, same.symm⟩
      · -- the line break is right before the index
        refine ⟨i, value, ⟨?_, first.1, fun j below _ => first.2 j below⟩, rfl⟩
        rcases i with - | i
        · exact .inl rfl
        · have before : '\n' ∈ text.drop i := tried.resolve_left i.succ_ne_zero
          have inside := first.1.length
          rw [drop_eq_getElem_cons (show i < text.length by omega), mem_cons] at before
          exact .inr (List.getElem?_eq_some_iff.mpr ⟨by omega, (before.resolve_right more).symm⟩)
    refine ⟨⟨fun isSome => ?_, fun ⟨i, value, start, entry⟩ => ?_⟩, fun out => line⟩
    · obtain ⟨i, value, ⟨start, entry, -⟩, -⟩ := line (Option.eq_some_of_isSome isSome)
      exact ⟨i, value, start, entry⟩
    · by_contra missed
      exact parseCfgKey_none (by simpa using missed) start entry

/-- The key is found in the middle of a line. -/
theorem key_inside_line : parseCfgKey "KEY".toList "XKEY=1\n".toList = some ['1'] ∧
    ∀ line ∈ "XKEY=1\n".toList.splitOn '\n', ¬"KEY=".toList <+: line := by decide

end Xos.Service
