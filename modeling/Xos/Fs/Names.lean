import Mathlib.Data.List.DropRight
import Mathlib.Data.List.GetD
import Xos.Fs.Fat32
import Xos.Lib.Bytes

/-!
# Names on a FAT32 volume

An entry has a name of eight and three characters, filled up with spaces, and may have a long name as well.
-/
namespace Xos.Fs

open Lib Function List Bytes DirEntry

def foldCase (unit : Nat) : Nat := if 0x61 ≤ unit ∧ unit ≤ 0x7A then unit - 0x20 else unit

def SameName (component : List Byte) (name : List Nat) : Prop :=
  component.map (fun c => foldCase c.toNat) = name.map foldCase

instance (component : List Byte) (name : List Nat) : Decidable (SameName component name) :=
  inferInstanceAs (Decidable (_ = _))

def trimmed (field : List Byte) : List Byte := field.rdropWhile (· = space)

def DirEntry.baseField (e : DirEntry) : List Byte := (List.range 8).map e.name

def DirEntry.extensionField (e : DirEntry) : List Byte := (List.range 3).map fun k => e.name (8 + k)

def DirEntry.shortName (e : DirEntry) : List Byte :=
  let base := trimmed e.baseField
  let extension := trimmed e.extensionField
  if extension = [] then base else base ++ dot :: extension

theorem toNat_toUpper (c : Byte) : (toUpper c).toNat = foldCase c.toNat := by
  unfold toUpper foldCase
  simp only [BitVec.le_def, BitVec.reduceToNat]
  split
  · simp only [BitVec.toNat_sub, BitVec.reduceToNat]
    omega
  · rfl

variable {c : Byte}

theorem toUpper_eq_of_not_letter {d : Byte} (other : d.toNat < 0x41 ∨ 0x7A < d.toNat) : toUpper c = d ↔ c = d := by
  rw [BitVec.toNat_eq, BitVec.toNat_eq, toNat_toUpper]
  unfold foldCase
  split <;> omega

theorem toUpper_eq_dot : toUpper c = dot ↔ c = dot := toUpper_eq_of_not_letter (by decide)

theorem toUpper_eq_zero : toUpper c = 0 ↔ c = 0 := toUpper_eq_of_not_letter (by decide)

variable {component name part : List Byte}

/-- A field of `n` characters. -/
def filled (n : Nat) (part : List Byte) : List Byte := part ++ List.replicate (n - part.length) space

variable {n : Nat}

theorem filled_trimmed (field : List Byte) : filled field.length (trimmed field) = field := by
  unfold filled trimmed
  induction field using List.reverseRecOn with
  | nil => rfl
  | append_singleton front c ih =>
    by_cases blank : c = space
    · subst blank
      have short := (List.rdropWhile_prefix (p := (· = space)) front).length_le
      rw [rdropWhile_concat_pos _ _ _ (by simp)]
      rw [length_append, length_singleton, Nat.succ_sub short, replicate_succ', ← append_assoc, ih]
    · rw [rdropWhile_concat_neg _ _ _ (by simpa using blank)]
      simp

theorem filled_getD {k : Nat} (inside : k < n) : (filled n part).getD k 0 = if k < part.length then part.getD k 0 else space := by
  unfold filled
  split
  next front => rw [getD_append _ _ _ _ front]
  next back =>
    rw [getD_append_right _ _ _ _ (by omega), getD_eq_getElem _ _ (by simp; omega), getElem_replicate]

section Cut

variable {d : Byte} {front : List Byte}

section

variable (absent : d ∉ front)
include absent

theorem ne_of_absent : ∀ c ∈ front, decide (c ≠ d) = true := by
  intro c mem
  rw [decide_eq_true_eq]
  rintro rfl
  exact absent mem

theorem takeWhile_ne_append (rest : List Byte) : (front ++ d :: rest).takeWhile (· ≠ d) = front := by
  rw [takeWhile_append_of_pos (ne_of_absent absent)]
  simp

theorem dropWhile_ne_append (rest : List Byte) : (front ++ d :: rest).dropWhile (· ≠ d) = d :: rest := by
  rw [dropWhile_append_of_pos (ne_of_absent absent)]
  simp

theorem dropWhile_ne_eq_nil : front.dropWhile (· ≠ d) = [] :=
  dropWhile_eq_nil_iff.mpr (ne_of_absent absent)

end

end Cut

def basePart (component : List Byte) : List Byte := component.takeWhile (· ≠ dot)

def extensionPart (component : List Byte) : List Byte := (component.dropWhile (· ≠ dot)).tail

theorem copy_cons (padded : Bytes) (i : Nat) (c : Byte) (rest : List Byte) :
    copy (update padded i c) (i + 1) rest = copy padded i (c :: rest) := by
  funext k
  unfold copy
  by_cases here : k = i
  · subst here
    rw [if_neg (by omega), if_pos (by rw [length_cons]; omega), update_self, Nat.sub_self, getD_cons_zero]
  · by_cases inside : i + 1 ≤ k ∧ k < i + 1 + rest.length
    · rw [if_pos inside, if_pos (by rw [length_cons]; omega), show k - i = (k - (i + 1)) + 1 by omega,
        getD_cons_succ]
    · rw [if_neg inside, if_neg (by rw [length_cons]; omega), update_of_ne here]

theorem padPart_all {limit i : Nat} {padded : Bytes} (low : i ≤ limit) : padPart false limit part i padded =
      if i + part.length ≤ limit then some (copy padded i (part.map toUpper), []) else none := by
  induction part generalizing i padded with
  | nil =>
    rw [padPart, if_pos (by simpa using low)]
    congr 2
    funext k
    exact (copy_outside _ _ (by simp; omega)).symm
  | cons c rest ih =>
    rw [padPart, if_neg (by simp)]
    by_cases full : i ≥ limit
    · rw [if_pos full, if_neg (by rw [length_cons]; omega)]
    · rw [if_neg full, ih (by omega), copy_cons, map_cons, length_cons, Nat.add_right_comm i 1, Nat.add_assoc]

theorem padPart_toDot {limit i : Nat} {padded : Bytes} (low : i ≤ limit) : padPart true limit component i padded =
      if i + (basePart component).length ≤ limit then
        some (copy padded i ((basePart component).map toUpper), component.dropWhile (· ≠ dot))
      else none := by
  induction component generalizing i padded with
  | nil =>
    rw [padPart, if_pos (by simpa [basePart] using low)]
    congr 2
    funext k
    exact (copy_outside _ _ (by simp [basePart]; omega)).symm
  | cons c rest ih =>
    rw [padPart]
    by_cases isDot : c = dot
    · subst isDot
      rw [if_pos ⟨rfl, rfl⟩, if_pos (by simpa [basePart] using low)]
      rw [dropWhile_cons_of_neg (by simp)]
      congr 2
      funext k
      exact (copy_outside _ _ (by simp [basePart]; omega)).symm
    · have front : basePart (c :: rest) = c :: basePart rest := takeWhile_cons_of_pos (by simpa using isDot)
      rw [if_neg (fun both => isDot both.2), front, dropWhile_cons_of_pos (by simpa using isDot)]
      by_cases full : i ≥ limit
      · rw [if_pos full, if_neg (by rw [length_cons]; omega)]
      · rw [if_neg full, ih (by omega), copy_cons, map_cons, length_cons, Nat.add_right_comm i 1, Nat.add_assoc]

theorem samePadded_iff {fatName padded : Nat → Byte} :
    samePadded fatName padded = true ↔ ∀ k, k < 11 → fatName k = padded k ∧ (fatName k).toNat < 0x80 := by
  unfold samePadded
  rw [all_eq_true]
  simp only [mem_range, decide_eq_true_eq]
  refine forall₂_congr fun k _ => ?_
  rw [BitVec.toInt_eq_toNat_cond, BitVec.toNat_eq]
  have left := (fatName k).isLt
  split <;> omega

/-- What `name_matches` compares the name of an entry with. -/
def paddedName (component : List Byte) : Nat → Byte :=
  copy (copy (fun _ => space) 0 ((basePart component).map toUpper)) 8 ((extensionPart component).map toUpper)

theorem nameMatches_eq (fatName : Nat → Byte) (component : List Byte) : nameMatches fatName component = true ↔
    (basePart component).length ≤ 8 ∧ (extensionPart component).length ≤ 3 ∧
      samePadded fatName (paddedName component) = true := by
  unfold nameMatches paddedName extensionPart
  rw [padPart_toDot (Nat.zero_le 8), Nat.zero_add]
  by_cases short : (basePart component).length ≤ 8
  · rw [if_pos short]
    cases rest : component.dropWhile (· ≠ dot) with
    | nil =>
      simp [short]
    | cons c extension =>
      simp only [padPart_all (show 8 ≤ 11 by decide), tail_cons]
      by_cases fits : extension.length ≤ 3
      · rw [if_pos (by omega)]
        simp [short, fits]
      · rw [if_neg (by omega)]
        simp [fits]
  · rw [if_neg short]
    simp [short]

theorem paddedName_base {k : Nat} (inside : k < 8) : paddedName component k =
    (filled 8 ((basePart component).map toUpper)).getD k 0 := by
  rw [paddedName, copy_outside _ _ (Or.inl inside), filled_getD inside]
  split
  next front =>
    have copied := copy_inside (fun _ => space) 0 front
    rwa [Nat.zero_add] at copied
  next back => exact copy_outside _ _ (Or.inr (by omega))

theorem paddedName_extension {k : Nat} (short : (basePart component).length ≤ 8) (inside : k < 3) :
    paddedName component (8 + k) = (filled 3 ((extensionPart component).map toUpper)).getD k 0 := by
  rw [paddedName, filled_getD inside]
  split
  next front => exact copy_inside _ _ front
  next back =>
    rw [copy_outside _ _ (Or.inr (by omega)), copy_outside _ _ (Or.inr (by simp; omega))]

theorem length_filled (short : part.length ≤ n) : (filled n part).length = n := by
  simp [filled, short]

theorem map_range_eq_iff {f : Nat → Byte} {l : List Byte} (length : l.length = n) :
    (List.range n).map f = l ↔ ∀ k, k < n → f k = l.getD k 0 := by
  subst length
  constructor
  · intro same k inside
    rw [← same, getD_eq_getElem _ _ (by simpa using inside), getElem_map, getElem_range]
  · intro same
    refine ext_getElem (by simp) fun k _ inside => ?_
    rw [getElem_map, getElem_range, same k inside, getD_eq_getElem _ _ inside]

/-- `name_matches` compares the two fields of the name with the two parts of the component. -/
theorem nameMatches_iff_fields {e : DirEntry} : nameMatches e.name component = true ↔
    (basePart component).length ≤ 8 ∧ (extensionPart component).length ≤ 3 ∧ (∀ k, k < 11 → (e.name k).toNat < 0x80) ∧
      e.baseField = filled 8 ((basePart component).map toUpper) ∧
      e.extensionField = filled 3 ((extensionPart component).map toUpper) := by
  rw [nameMatches_eq, samePadded_iff]
  refine and_congr_right fun short => and_congr_right fun short' => ?_
  have base : e.baseField = filled 8 ((basePart component).map toUpper) ↔ ∀ k, k < 8 → e.name k = paddedName component k := by
    rw [baseField, map_range_eq_iff (length_filled (by simpa using short))]
    exact forall₂_congr fun k inside => by rw [paddedName_base inside]
  have extension : e.extensionField = filled 3 ((extensionPart component).map toUpper) ↔
      ∀ k, k < 3 → e.name (8 + k) = paddedName component (8 + k) := by
    rw [extensionField, map_range_eq_iff (length_filled (by simpa using short'))]
    exact forall₂_congr fun k inside => by rw [paddedName_extension short inside]
  rw [base, extension]
  constructor
  · intro all
    exact ⟨fun k inside => (all k inside).2, fun k inside => (all k (by omega)).1, fun k inside => (all (8 + k) (by omega)).1⟩
  · rintro ⟨low, front, rear⟩ k inside
    refine ⟨?_, low k inside⟩
    by_cases first : k < 8
    · exact front k first
    · have same := rear (k - 8) (by omega)
      rwa [Nat.add_sub_cancel' (by omega)] at same

section Parts

variable {e : DirEntry} {component : List Byte}

theorem basePart_append {base : List Byte} (plain : dot ∉ base) (rest : List Byte) :
    basePart (base ++ dot :: rest) = base ∧ extensionPart (base ++ dot :: rest) = rest := by
  unfold basePart extensionPart
  rw [takeWhile_ne_append plain, dropWhile_ne_append plain]
  exact ⟨rfl, rfl⟩

theorem basePart_of_plain {base : List Byte} (plain : dot ∉ base) : basePart base = base ∧ extensionPart base = [] := by
  unfold basePart extensionPart
  rw [dropWhile_ne_eq_nil plain]
  exact ⟨takeWhile_eq_self_iff.mpr (ne_of_absent plain), rfl⟩

theorem shortName_parts (plain : dot ∉ e.baseField) :
    basePart e.shortName = trimmed e.baseField ∧ extensionPart e.shortName = trimmed e.extensionField := by
  have inside : dot ∉ trimmed e.baseField := fun mem => plain ((List.rdropWhile_prefix _ _).subset mem)
  unfold shortName
  dsimp only
  split
  next none =>
    rw [none]
    exact basePart_of_plain inside
  next => exact basePart_append inside _

end Parts

def BeginsWith (component name : List Byte) : Prop := component.map toUpper <+: name.map toUpper

instance (component name : List Byte) : Decidable (BeginsWith component name) := inferInstanceAs (Decidable (_ <+: _))

section BeginsWith

variable {component name : List Byte} {c d : Byte}

@[simp] theorem beginsWith_nil : BeginsWith [] name := nil_prefix

@[simp] theorem not_beginsWith_cons_nil : ¬BeginsWith (c :: component) [] := by simp [BeginsWith]

theorem beginsWith_cons : BeginsWith (c :: component) (d :: name) ↔ toUpper c = toUpper d ∧ BeginsWith component name := by
  simp [BeginsWith, cons_prefix_cons]

end BeginsWith

/-- A buffer holds a name and a null byte behind it. -/
structure Spells (nameBuf : Nat → Byte) (name : List Byte) : Prop where
  chars : ∀ i, i < name.length → nameBuf i = name.getD i 0
  ends : nameBuf name.length = 0

theorem pathMatches_from {nameBuf : Nat → Byte} {i : Nat} (spells : Spells nameBuf name)
    (room : name.length < nameBufSize) (nonzero : ∀ c ∈ component, c ≠ 0) (inside : i ≤ name.length) :
    pathMatches nameBuf component i = .ok (decide (BeginsWith component (name.drop i))) := by
  induction component generalizing i with
  | nil => simp [pathMatches]
  | cons c rest ih =>
    have real : c ≠ 0 := nonzero c mem_cons_self
    rw [pathMatches, if_neg (by omega)]
    rcases Nat.lt_or_eq_of_le inside with before | rfl
    · have here : nameBuf i = name[i] := (spells.chars i before).trans (getD_eq_getElem _ _ before)
      simp only [drop_eq_getElem_cons before, beginsWith_cons, here]
      by_cases same : toUpper c = toUpper name[i]
      · rw [if_neg (by simpa using same), if_neg real, ih (fun d mem => nonzero d (mem_cons_of_mem c mem)) before]
        simp [same]
      · rw [if_pos same]
        simp [same]
    · -- the null byte ends the name, and no character of a component is one
      have differ : toUpper c ≠ toUpper (nameBuf name.length) := by
        rw [spells.ends]
        exact fun same => real (toUpper_eq_zero.mp same)
      rw [if_pos differ]
      simp

def lowBytes (name : List (BitVec 16)) : List Byte := name.map (BitVec.setWidth 8)

end Xos.Fs
