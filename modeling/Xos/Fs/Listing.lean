import Xos.Fs.Lookup

/-!
# What `fat32_readdir` lists

`fat32_readdir` and `open` are two walks over the same entries that skip different ones: only `open` skips volume
labels, and only `fat32_readdir` drops spaces inside of short names.
-/
namespace Xos.Fs

open Function List Option Outcome

open Lib (Bytes)

/-- The name under which an item is to be listed: its long name, or its short name if it has none. -/
def DirItem.listed (item : DirItem) : List Byte := item.long.elim item.entry.shortName lowBytes

/-- The items but for `.` and `..`. -/
def visible (items : List DirItem) : List DirItem := items.filter fun item => decide (item.entry.name 0 ≠ dot)

def Dirent.text (d : Dirent) : List Byte := (Bytes.slice d.name 0 direntNameSize).takeWhile (· ≠ 0)

structure Dirent.Shows (d : Dirent) (item : DirItem) : Prop where
  name : Spells d.name item.listed
  isDir : d.isDir = item.entry.isDir
  fileSize : d.fileSize = item.entry.size.setWidth 64

def nonspaces (field : List Byte) : List Byte := field.filter fun c => !decide (c = space)

theorem nonspaces_cons (c : Byte) (rest : List Byte) : nonspaces (c :: rest) = (if c = space then [] else [c]) ++ nonspaces rest := by
  by_cases blank : c = space <;> simp [nonspaces, blank]

theorem shortNameChars_eq (e : DirEntry) : shortNameChars e =
    nonspaces e.baseField ++ ((if e.name 8 = space then [] else [dot]) ++ nonspaces e.extensionField) := by
  have none : nonspaces [] = [] := rfl
  simp [shortNameChars, DirEntry.baseField, DirEntry.extensionField, range_succ, nonspaces_cons, none]

theorem nonspaces_eq_trimmed {field : List Byte} (spaces : space ∉ trimmed field) : nonspaces field = trimmed field := by
  have all : nonspaces (trimmed field) = trimmed field := by
    rw [nonspaces, filter_eq_self]
    intro c mem
    have other : c ≠ space := fun blank => spaces (blank ▸ mem)
    simp [other]
  have split : nonspaces (filled field.length (trimmed field)) = nonspaces (trimmed field) := by simp [nonspaces, filled]
  rw [filled_trimmed] at split
  rw [split, all]

structure DirEntry.Solid (e : DirEntry) : Prop where
  base : space ∉ trimmed e.baseField
  extension : space ∉ trimmed e.extensionField

variable {e : DirEntry}

/-- The short name that `fat32_readdir` writes is the short name of the entry. -/
theorem DirEntry.Solid.chars (solid : e.Solid) : shortNameChars e = e.shortName := by
  rw [shortNameChars_eq, nonspaces_eq_trimmed solid.base, nonspaces_eq_trimmed solid.extension, shortName]
  -- the extension begins with a space only if it is empty
  have first : e.name 8 = space ↔ trimmed e.extensionField = [] := by
    have field : filled 3 (trimmed e.extensionField) = [e.name 8, e.name 9, e.name 10] := filled_trimmed e.extensionField
    cases extension : trimmed e.extensionField with
    | nil =>
      rw [extension] at field
      exact iff_of_true (List.cons.inj field).1.symm rfl
    | cons c rest =>
      rw [extension] at field
      have same : c = e.name 8 := (List.cons.inj field).1
      refine iff_of_false (fun blank => solid.extension ?_) (cons_ne_nil c rest)
      rw [extension, ← blank, ← same]
      exact mem_cons_self
  by_cases empty : trimmed e.extensionField = []
  · simp [first.mpr empty, empty]
  · simp [mt first.mp empty, empty]

/-- A name with a base, with spaces only at the ends of its two fields, and without dots, slashes, null characters and
lower-case letters. -/
structure DirEntry.Proper (e : DirEntry) : Prop extends e.Solid where
  nonempty : trimmed e.baseField ≠ []
  plain : ∀ k < 11, e.name k ≠ dot ∧ e.name k ≠ slash ∧ e.name k ≠ 0 ∧ toUpper (e.name k) = e.name k

/-- The two fields of a proper name are the parts of what `fat32_readdir` writes, filled up. -/
theorem DirEntry.Proper.fields (proper : e.Proper) :
    ((basePart (shortNameChars e)).length ≤ 8 ∧ filled 8 ((basePart (shortNameChars e)).map toUpper) = e.baseField) ∧
      (extensionPart (shortNameChars e)).length ≤ 3 ∧
        filled 3 ((extensionPart (shortNameChars e)).map toUpper) = e.extensionField := by
  have noDot : dot ∉ e.baseField := by
    intro mem
    obtain ⟨k, inside, isDot⟩ := mem_map.mp mem
    exact (proper.plain k ((mem_range.mp inside).trans (by decide))).1 isDot
  -- a field whose characters are in upper case is its trimmed part, filled up
  have whole {n : Nat} {field : List Byte} (length : field.length = n) (upper : ∀ c ∈ field, toUpper c = c) :
      (trimmed field).length ≤ n ∧ filled n ((trimmed field).map toUpper) = field := by
    have front : trimmed field <+: field := List.rdropWhile_prefix ..
    have same : (trimmed field).map toUpper = trimmed field :=
      (map_congr_left fun c mem => upper c (front.subset mem)).trans (map_id _)
    refine ⟨length ▸ front.length_le, ?_⟩
    rw [same, ← length, filled_trimmed]
  obtain ⟨base, extension⟩ := shortName_parts noDot
  rw [proper.chars, base, extension]
  refine ⟨whole (by simp [baseField]) fun c mem => ?_, whole (by simp [extensionField]) fun c mem => ?_⟩
  · obtain ⟨k, inside, rfl⟩ := mem_map.mp mem
    exact (proper.plain k ((mem_range.mp inside).trans (by decide))).2.2.2
  · obtain ⟨k, inside, rfl⟩ := mem_map.mp mem
    exact (proper.plain (8 + k) (by have := mem_range.mp inside; omega)).2.2.2

/-- `name_matches` accepts the name that `fat32_readdir` writes for an entry exactly if its characters are below 0x80, and
for no other entry. -/
theorem listed_name_accepted_iff {e : DirEntry} (proper : e.Proper) :
    (nameMatches e.name (shortNameChars e) = true ↔ ∀ k < 11, (e.name k).toNat < 0x80) ∧
      ∀ other : DirEntry, nameMatches other.name (shortNameChars e) = true → ∀ k < 11, other.name k = e.name k := by
  obtain ⟨⟨short, base⟩, short', extension⟩ := proper.fields
  constructor
  · rw [nameMatches_iff_fields, base, extension]
    exact ⟨fun accepted => accepted.2.2.1, fun ascii => ⟨short, short', ascii, rfl, rfl⟩⟩
  · intro other accepted k inside
    obtain ⟨-, -, -, front, rear⟩ := nameMatches_iff_fields.mp accepted
    rw [base] at front
    rw [extension] at rear
    by_cases first : k < 8
    · exact map_inj_left.mp front k (mem_range.mpr first)
    · have same := map_inj_left.mp rear (k - 8) (mem_range.mpr (by omega))
      rwa [Nat.add_sub_cancel' (by omega)] at same

def letterEntry (c : Byte) : DirEntry := fun k => if k = 0 then c else space

/-- A character from 0x80 on is negative as a `char`, and the name is not accepted for the entry itself. -/
theorem high_letter_not_accepted : (letterEntry 0x80).Proper ∧
    nameMatches (letterEntry 0x80).name (shortNameChars (letterEntry 0x80)) = false :=
  ⟨⟨⟨by decide, by decide⟩, by decide, by decide⟩, by decide⟩

theorem letter_accepted : nameMatches (letterEntry 0x41).name (shortNameChars (letterEntry 0x41)) = true :=
  (listed_name_accepted_iff ⟨⟨by decide, by decide⟩, by decide, by decide⟩).1.mpr (by decide)

variable {units : List (BitVec 16)} {item : DirItem} {items : List DirItem} {rest : List DirEntry}

section List

variable {max : Int} {e : DirEntry} {l : Listing}

def Listing.named (l : Listing) (name : Nat → Byte) : Listing :=
  ⟨update l.out l.countRead { l.out l.countRead with name := name }, l.countRead, true⟩

@[simp] theorem Listing.named_named (l : Listing) (name name' : Nat → Byte) : (l.named name).named name' = l.named name' := by
  simp [named]

variable {name : Nat → Byte}

theorem listEntry_lfn (first : e.name 0 ≠ 0x00 ∧ e.name 0 ≠ 0xE5 ∧ e.name 0 ≠ dot) (room : (l.countRead : Int) < max)
    (piece : e.attributes = attrLfn) (written : writePiece direntNameSize e (l.out l.countRead).name = .ok name) :
    listEntry max e l = .ok (.more (l.named name)) := by
  unfold listEntry
  rw [if_neg first.1, if_neg first.2.1, if_neg first.2.2, if_neg (Int.not_le.mpr room), if_pos piece, written]
  rfl

theorem listEntries_pieces {last k : Nat} {pieces : List DirEntry}
    (whole : LfnPieces units last k pieces) (below : k < 20) (room : (l.countRead : Int) < max)
    (written : writePieces direntNameSize pieces (l.out l.countRead).name = .ok name) (ready : k = 0 → l.hasLfn = true) :
    walkEntries (listEntry max) pieces l = .ok (.more (l.named name)) := by
  induction whole generalizing l with
  | nil =>
    cases written
    simp [walkEntries, Listing.named, ← ready rfl]
  | cons piece pieces ih =>
    obtain ⟨mid, first, rest⟩ := of_bind written
    rw [walkEntries, listEntry_lfn (piece.firstByte below) room piece.attributes first, ok_bind]
    -- the output entry is overwritten again and again
    have later := ih (l := l.named mid) (by omega) room (by simpa [Listing.named] using rest) fun _ => rfl
    rwa [Listing.named_named] at later

def Listing.add (l : Listing) (e : DirEntry) : Listing :=
  ⟨update l.out l.countRead
    ⟨if l.hasLfn = true then (l.out l.countRead).name else Bytes.copy (l.out l.countRead).name 0 (shortNameChars e ++ [0]),
      e.isDir, e.size.setWidth 64⟩, l.countRead + 1, false⟩

theorem listEntry_plain (plain : e.Plain) (notDot : e.name 0 ≠ dot) (room : (l.countRead : Int) < max) :
    listEntry max e l = .ok (if ((l.countRead + 1 : Nat) : Int) = max then .left (l.add e) else .more (l.add e)) := by
  unfold listEntry
  rw [if_neg plain.nonzero, if_neg plain.live, if_neg notDot, if_neg (Int.not_le.mpr room), if_neg plain.notLfn]
  dsimp only [Listing.add]
  split <;> rfl

def Round.listing : Round Listing Listing → Listing
  | .more l => l
  | .left l => l

structure Listing.Adds (l : Listing) (shown : List DirItem) (l' : Listing) : Prop where
  count : l'.countRead = l.countRead + shown.length
  before : ∀ i, i < l.countRead → l'.out i = l.out i
  shows : ∀ i item, shown[i]? = some item → (l'.out (l.countRead + i)).Shows item

theorem Listing.Adds.of_named {l' : Listing} {shown : List DirItem} (adds : (l.named name).Adds shown l') :
    l.Adds shown l' where
  count := adds.count
  before i inside := (adds.before i inside).trans (update_of_ne (Nat.ne_of_lt inside) _ _)
  shows := adds.shows

theorem Listing.Adds.nil (l : Listing) : l.Adds [] l := ⟨rfl, fun _ _ => rfl, fun _ _ absent => by simp at absent⟩

theorem Listing.Adds.cons {l' l'' : Listing} {rest : List DirItem} (count : l'.countRead = l.countRead + 1)
    (before : ∀ i, i < l.countRead → l'.out i = l.out i) (shows : (l'.out l.countRead).Shows item) (more : l'.Adds rest l'') :
    l.Adds (item :: rest) l'' where
  count := by
    rw [more.count, count, length_cons]
    omega
  before i inside := (more.before i (by omega)).trans (before i inside)
  shows i other mem := by
    cases i with
    | zero =>
      cases mem
      rw [Nat.add_zero, more.before l.countRead (by omega)]
      exact shows
    | succ i =>
      have later := more.shows i other (by simpa using mem)
      rwa [count, Nat.add_right_comm, Nat.add_assoc] at later

theorem listEntries_item (plain : e.Plain) (notDot : e.name 0 ≠ dot)
    (room : (l.countRead : Int) + (items.length + 1) ≤ max) (shows : ((l.add e).out l.countRead).Shows item)
    (more : ((l.add e).countRead : Int) + items.length ≤ max →
      ∃ round, walkEntries (listEntry max) rest (l.add e) = .ok round ∧ (l.add e).Adds items round.listing) :
    ∃ round, walkEntries (listEntry max) (e :: rest) l = .ok round ∧ l.Adds (item :: items) round.listing := by
  have before (i : Nat) (inside : i < l.countRead) : (l.add e).out i = l.out i := update_of_ne (by omega) _ _
  have next : (l.add e).countRead = l.countRead + 1 := rfl
  rw [walkEntries, listEntry_plain plain notDot (by omega), ok_bind]
  by_cases full : ((l.countRead + 1 : Nat) : Int) = max
  · -- the output is full, and there are no more items
    have none : items = [] := eq_nil_of_length_eq_zero (by omega)
    subst none
    rw [if_pos full]
    exact ⟨.left (l.add e), rfl, .cons next before shows (.nil _)⟩
  · rw [if_neg full]
    obtain ⟨round, walked, adds⟩ := more (by omega)
    exact ⟨round, walked, .cons next before shows adds⟩

theorem shows_short (clean : l.hasLfn = false) (solid : e.Solid) : ((l.add e).out l.countRead).Shows ⟨none, e⟩ := by
  have out : (l.add e).out l.countRead =
      ⟨Bytes.copy (l.out l.countRead).name 0 (shortNameChars e ++ [0]), e.isDir, e.size.setWidth 64⟩ := by
    simp [Listing.add, clean]
  have listed : (⟨none, e⟩ : DirItem).listed = shortNameChars e := solid.chars.symm
  have char (i : Nat) (inside : i < (shortNameChars e ++ [0]).length) :
      Bytes.copy (l.out l.countRead).name 0 (shortNameChars e ++ [0]) i = (shortNameChars e ++ [0]).getD i 0 := by
    simpa using Bytes.copy_inside (l.out l.countRead).name 0 inside
  rw [out]
  refine ⟨⟨fun i inside => ?_, ?_⟩, rfl, rfl⟩
  · rw [listed] at inside ⊢
    dsimp only
    rw [char i (by simp; omega), getD_append _ _ _ _ inside]
  · dsimp only
    rw [listed, char _ (by simp), getD_append_right _ _ _ _ le_rfl, Nat.sub_self]
    rfl

theorem shows_long (spells : Spells name (lowBytes units)) :
    (((l.named name).add e).out l.countRead).Shows ⟨some units, e⟩ := by
  have out : ((l.named name).add e).out l.countRead = ⟨name, e.isDir, e.size.setWidth 64⟩ := by simp [Listing.add, Listing.named]
  rw [out]
  exact ⟨spells, rfl, rfl⟩

end List

def LabelFree (entries : List DirEntry) : Prop :=
  ∀ e ∈ entries.takeWhile fun e => decide (e.name 0 ≠ 0x00), e.attributes &&& attrVolume ≠ 0 → e.name 0 = 0xE5 ∨ e.attributes = attrLfn

/-- `fat32_readdir` writes the names of the items as they are: the spaces in short names are at the end, and long names have at
most 18 pieces. -/
structure Printable (items : List DirItem) : Prop where
  solid : ∀ item ∈ items, item.long = none → item.entry.Solid
  fits : ∀ item ∈ items, ∀ name, item.long = some name → name.length ≤ 234

theorem Printable.tail (printable : Printable (item :: items)) : Printable items :=
  ⟨fun i mem => printable.solid i (mem_cons_of_mem _ mem), fun i mem => printable.fits i (mem_cons_of_mem _ mem)⟩

theorem labelFree_cons (nonzero : e.name 0 ≠ 0x00) : LabelFree (e :: rest) ↔
    (e.attributes &&& attrVolume ≠ 0 → e.name 0 = 0xE5 ∨ e.attributes = attrLfn) ∧ LabelFree rest := by
  unfold LabelFree
  rw [takeWhile_cons_of_pos (by simpa using nonzero), forall_mem_cons]

theorem LabelFree.tail (free : LabelFree (e :: rest)) (nonzero : e.name 0 ≠ 0x00) : LabelFree rest :=
  ((labelFree_cons nonzero).mp free).2

theorem length_trimmed_le (field : List Byte) : (trimmed field).length ≤ field.length :=
  (List.rdropWhile_prefix (p := (· = space)) field).length_le

theorem length_shortName_le (e : DirEntry) : e.shortName.length ≤ 12 := by
  have base := length_trimmed_le e.baseField
  have extension := length_trimmed_le e.extensionField
  have eight : e.baseField.length = 8 := by simp [DirEntry.baseField]
  have three : e.extensionField.length = 3 := by simp [DirEntry.extensionField]
  unfold DirEntry.shortName
  dsimp only
  split
  · omega
  · rw [length_append, length_cons]
    omega

theorem Printable.length (printable : Printable items) (mem : item ∈ items) :
    item.listed.length < direntNameSize := by
  rcases item with ⟨_ | name, e⟩
  · exact (length_shortName_le e).trans_lt (by decide)
  · have fits := printable.fits ⟨some name, e⟩ mem name rfl
    have length : (lowBytes name).length = name.length := by simp [lowBytes]
    change (lowBytes name).length < 247
    omega

theorem LabelFree.drop {front : List DirEntry} (free : LabelFree (front ++ rest)) (nonzero : ∀ e ∈ front, e.name 0 ≠ 0x00) :
    LabelFree rest := by
  induction front with
  | nil => exact free
  | cons e front ih =>
    exact ih (free.tail (nonzero e mem_cons_self)) fun e' mem => nonzero e' (mem_cons_of_mem _ mem)

theorem LfnPieces.nonzero {last k : Nat} {pieces : List DirEntry} (whole : LfnPieces units last k pieces)
    (below : k < 20) (mem : e ∈ pieces) : e.name 0 ≠ 0x00 := by
  induction whole with
  | nil => cases mem
  | cons piece pieces ih =>
    rcases mem_cons.mp mem with rfl | later
    · exact (piece.firstByte below).1
    · exact ih (by omega) later

theorem Lists.list {entries : List DirEntry} (lists : Lists entries items) (free : LabelFree entries)
    (printable : Printable items) {max : Int} (l : Listing) (clean : l.hasLfn = false)
    (room : (l.countRead : Int) + (visible items).length ≤ max) :
    ∃ round, walkEntries (listEntry max) entries l = .ok round ∧ l.Adds (visible items) round.listing := by
  induction lists generalizing l with
  | nil => exact ⟨.more l, rfl, .nil l⟩
  | stop zero => exact ⟨.left l, by rw [walkEntries, listEntry, if_pos zero]; rfl, .nil l⟩
  | @deleted e rest items mark more ih =>
    have nonzero : e.name 0 ≠ 0x00 := by
      rw [mark]
      decide
    rw [walkEntries, listEntry, if_neg nonzero, if_pos mark]
    exact ih (free.tail nonzero) printable l clean room
  | @volume e rest items nonzero live notLfn label more ih =>
    rcases ((labelFree_cons nonzero).mp free).1 label with deleted | piece
    · exact absurd deleted live
    · exact absurd piece notLfn
  | @short e rest items plain more ih =>
    by_cases dots : e.name 0 = dot
    · have hidden : visible (⟨none, e⟩ :: items) = visible items := by simp [visible, dots]
      rw [hidden] at room ⊢
      rw [walkEntries, listEntry, if_neg plain.nonzero, if_neg plain.live, if_pos dots]
      exact ih (free.tail plain.nonzero) printable.tail l clean room
    · have shown : visible (⟨none, e⟩ :: items) = ⟨none, e⟩ :: visible items := by simp [visible, dots]
      rw [shown] at room ⊢
      exact listEntries_item plain dots (by simpa using room)
        (shows_short clean (printable.solid ⟨none, e⟩ mem_cons_self rfl))
        (ih (free.tail plain.nonzero) printable.tail (l.add e) rfl)
  | @long e name pieces rest items holds plain notDot more ih =>
    have shown : visible (⟨some name, e⟩ :: items) = ⟨some name, e⟩ :: visible items := by simp [visible, notDot]
    have fits : name.length ≤ 234 := printable.fits ⟨some name, e⟩ mem_cons_self name rfl
    have count : pieceCount name = (name.length + 12) / 13 := rfl
    have long : 0 < name.length := length_pos_iff.mpr holds.nonempty
    rw [shown] at room ⊢
    rw [length_cons] at room
    -- the pieces leave the name in the output entry
    have size : pieceCount name * 13 < direntNameSize := by
      rw [direntNameSize]
      omega
    obtain ⟨buf, written, spells⟩ := holds.write (by omega) size (l.out l.countRead).name
    have below : (l.countRead : Int) < max := by omega
    have named := listEntries_pieces holds.pieces (by omega) below written fun none => by omega
    have behind : LabelFree (e :: rest) := free.drop fun e mem => holds.pieces.nonzero (by omega) mem
    obtain ⟨round, walked, adds⟩ := listEntries_item (l := l.named buf) plain notDot room (shows_long spells)
      (ih (behind.tail plain.nonzero) printable.tail ((l.named buf).add e) rfl)
    refine ⟨round, ?_, adds.of_named⟩
    rw [walkEntries_append, named, ok_bind]
    exact walked

theorem mem_of_visible (mem : item ∈ visible items) : item ∈ items ∧ item.entry.name 0 ≠ dot := by
  obtain ⟨inside, notDot⟩ := mem_filter.mp mem
  exact ⟨inside, of_decide_eq_true notDot⟩

/-- The name of an item on the disk. -/
def DirItem.diskName (item : DirItem) : List Nat :=
  item.long.elim (item.entry.shortName.map BitVec.toNat) (·.map BitVec.toNat)

/-- A search for the name under which an item is listed stops at one with its size and directory flag. -/
def Reopens (items : List DirItem) (item : DirItem) : Prop :=
  ∃ found, stopsAt items item.listed = some found ∧ found.Fits ∧ found.entry.size = item.entry.size ∧
    found.entry.isDir = item.entry.isDir

section Directory

variable {v : Volume} {dirs : Set (BitVec 32)} {items : BitVec 32 → List DirItem} {components : List (List Byte)}

theorem LeadsTo.through {cluster dir : BitVec 32} (leads : LeadsTo items components cluster dir) :
    OnTheWay NamesDir items components cluster := by
  induction components generalizing cluster with
  | nil => trivial
  | cons comp rest ih =>
    obtain ⟨item, first, isDir, leads⟩ := leads
    refine ⟨fun other found => ?_, fun other found => ?_⟩
    · cases first.symm.trans found
      exact isDir
    · cases first.symm.trans found
      exact ih leads

theorem LeadsTo.resolve {cluster dir : BitVec 32} (leads : LeadsTo items components cluster dir) (some : components ≠ []) :
    ∃ item, resolve items components cluster = .some item ∧ item.entry.isDir = true ∧ item.entry.firstCluster = dir := by
  induction components generalizing cluster with
  | nil => exact absurd rfl some
  | cons comp rest ih =>
    obtain ⟨item, first, isDir, leads⟩ := leads
    rw [Fs.resolve, first, Option.bind_some]
    by_cases last : rest = []
    · subst last
      exact ⟨item, if_pos rfl, isDir, leads⟩
    · rw [if_neg last, if_pos isDir]
      exact ih leads last

theorem Dirent.Shows.text {d : Dirent} (shows : d.Shows item) (nonzero : ∀ c ∈ item.listed, c ≠ 0)
    (fits : item.listed.length < direntNameSize) : d.text = item.listed := by
  obtain ⟨k, size⟩ : ∃ k, direntNameSize = item.listed.length + (1 + k) := ⟨direntNameSize - item.listed.length - 1, by omega⟩
  have front : Bytes.slice d.name 0 item.listed.length = item.listed := by
    apply ext_getElem
    · simp
    · intro i _ inside
      simp [Bytes.slice, shows.name.chars i inside, inside]
  have mark : Bytes.slice d.name (0 + item.listed.length) 1 = [0] := by
    simp [Bytes.slice, shows.name.ends]
  have absent : (0 : Byte) ∉ item.listed := fun mem => nonzero 0 mem rfl
  rw [Dirent.text, size, Bytes.slice_add, Bytes.slice_add, front, mark]
  exact takeWhile_ne_append absent _

theorem setWidth_inj {a b : BitVec 32} : a.setWidth 64 = b.setWidth 64 ↔ a = b := by
  refine ⟨fun same => BitVec.eq_of_toNat_eq ?_, fun same => same ▸ rfl⟩
  have value := congrArg BitVec.toNat same
  have bound := a.isLt
  have bound' := b.isLt
  rw [BitVec.toNat_setWidth, BitVec.toNat_setWidth] at value
  omega

section

variable (formed : WellFormed v dirs items)
include formed

/-- `fat32_readdir` lists the visible items of a directory with enough room for them. -/
theorem WellFormed.list {cluster : BitVec 32} (mem : cluster ∈ dirs)
    (labels : ∀ chain, Chain v cluster chain → LabelFree (v.entries chain)) (printable : Printable (items cluster)) {max : Int}
    (enough : (visible (items cluster)).length ≤ max) (stack : Sector) (out : Nat → Dirent) :
    ∃ n, ∀ fuel, n ≤ fuel → ∀ buf, ∃ round buf', walkChain (listEntry max) v stack fuel cluster buf ⟨out, 0, false⟩ = .ok (round, buf') ∧
      (⟨out, 0, false⟩ : Listing).Adds (visible (items cluster)) round.listing := by
  obtain ⟨chain, chained, lists⟩ := formed.lists cluster mem
  refine ⟨chain.length + 1, fun fuel fueled buf => ?_⟩
  obtain ⟨round, walked, adds⟩ := lists.list (labels chain chained) printable ⟨out, 0, false⟩ rfl (by simpa using enough)
  obtain ⟨buf', done⟩ := walkChain_eq formed.reads (listEntry max) ⟨out, 0, false⟩ stack chained fueled buf
  rw [walked] at done
  exact ⟨round, buf', done, adds⟩

variable {dir : BitVec 32} (names : ∀ c ∈ components, Component c)
  (agrees : OnTheWay Agrees items components v.bpb.rootCluster) (leads : LeadsTo items components v.bpb.rootCluster dir)
include names agrees leads

/-- `open` finds the directory that the names lead to. -/
theorem WellFormed.opens_dir (stack : Stack) : ∃ file : Fat32File, file.firstCluster = dir ∧ file.isDir = true ∧
      ∃ n, ∀ fuel, n ≤ fuel → openPath v stack fuel (pathOf components) = .ok (some file) := by
  rcases eq_nil_or_concat' components with rfl | ⟨front, last, rfl⟩
  · exact ⟨⟨v.bpb.rootCluster, 0, true⟩, leads, rfl, 0, fun fuel _ => rfl⟩
  · have through := leads.through.front
    obtain ⟨item, resolved, isDir, place⟩ := leads.resolve (by simp)
    have right := (formed.opensRight_iff stack names agrees.front through).mpr agrees
    have target : lookup v items (front ++ [last]) = some item.file := by
      rw [lookup, if_neg (by simp), resolved]
      rfl
    rw [OpensRight, target] at right
    exact ⟨item.file, place, isDir, right⟩

theorem WellFormed.readdir (labels : ∀ chain, Chain v dir chain → LabelFree (v.entries chain))
    (printable : Printable (items dir)) {limit : Int}
    (enough : (visible (items dir)).length ≤ limit) (stack : Stack) (entries : Sector) (out : Nat → Dirent) :
    ∃ n, ∀ fuel, n ≤ fuel → ∃ l : Listing,
      fat32Readdir v stack entries fuel (pathOf components) out limit = .ok (l.countRead, l.out) ∧
        (⟨out, 0, false⟩ : Listing).Adds (visible (items dir)) l := by
  have letter : ∀ c ∈ components ++ [[0x61]], Component c := by
    intro c mem
    rcases mem_append.mp mem with before | last
    · exact names c before
    · rw [mem_singleton.mp last]
      exact ⟨by decide, by decide, by decide⟩
  have member := (formed.opens_leading stack.buf letter formed.root agrees leads).1
  obtain ⟨file, rfl, isDir, n, opens⟩ := formed.opens_dir names agrees leads stack
  obtain ⟨n', lists⟩ := formed.list member labels printable enough stack.buf out
  refine ⟨max n n', fun fuel fueled => ?_⟩
  obtain ⟨round, buf', walked, adds⟩ := lists fuel (by omega) entries
  refine ⟨round.listing, ?_, adds⟩
  rw [fat32Readdir, opens fuel (by omega), Outcome.ok_bind]
  dsimp only
  rw [if_neg (by simp [isDir]), walked, Outcome.ok_bind]
  cases round <;> rfl

/-- `open` of the name under which an item is listed reports its size and flag exactly if the search stops at such an item. -/
theorem WellFormed.reopens_iff (name : Component item.listed) (stack : Stack) :
    (∃ file : Fat32File, (∃ n, ∀ fuel, n ≤ fuel → openPath v stack fuel (pathOf (components ++ [item.listed])) = .ok (some file)) ∧
      file.size = item.entry.size ∧ file.isDir = item.entry.isDir) ↔ Reopens (items dir) item := by
  have names' : ∀ c ∈ components ++ [item.listed], Component c := by
    simpa [or_imp, forall_and] using ⟨names, name⟩
  obtain ⟨-, -, -, opens⟩ := formed.opens_leading stack.buf names' formed.root agrees leads
  have returns := opens.path (by simp) names'
  constructor
  · rintro ⟨file, found, size, flag⟩
    have same := settled_unique returns found
    rcases stops : stopsAt (items dir) item.listed with _ | other
    · rw [stops] at same
      cases same
    · by_cases fits : other.Fits
      · rw [stops, report, if_pos fits] at same
        cases same
        exact ⟨other, stops, fits, size, flag⟩
      · rw [stops, report, if_neg fits] at same
        cases same
  · rintro ⟨found, stops, fits, size, flag⟩
    rw [stops, report, if_pos fits] at returns
    exact ⟨found.file, returns, size, flag⟩

end

end Directory

def blankDirent : Dirent := ⟨fun _ => 0, false, 0⟩

/-- A volume with the label `XOS` in its root directory, and nothing else. -/
def labelVolume : Volume where
  bpb := ⟨1, 1, 1, 1, 2⟩
  lbaStart := 0
  disk lba := some fun i =>
    if lba = 1 then 0xFF else if lba = 2 then [0x58, 0x4F, 0x53, 0x20, 0x20, 0x20, 0x20, 0x20, 0x20, 0x20, 0x20, 0x08].getD i 0 else 0

theorem labelVolume_wellFormed : WellFormed labelVolume {2} fun _ => [] where
  reads _ := rfl
  root := rfl
  lists := by
    rintro cluster rfl
    have chained : Chain labelVolume 2 [2] := .last (by decide) (by decide)
    have entries : labelVolume.entries [2] = entryAt (labelVolume.sector 2) 0 ::
      (List.range 15).map fun j => entryAt (labelVolume.sector 2) (j + 1) := rfl
    refine ⟨[2], chained, ?_⟩
    rw [entries]
    exact .volume (by decide) (by decide) (by decide) (by decide) (.stop (by decide))
  children := by
    rintro cluster _ item mem
    cases mem

theorem foobar_labelFree {chain : List (BitVec 32)} (chained : Chain foobarVolume 2 chain) :
    LabelFree (foobarVolume.entries chain) := by
  cases chained with
  | last valid ends =>
    unfold LabelFree
    decide
  | cons valid more =>
    have ended : ¬foobarVolume.next 2 < clusterEnd := by decide
    cases more with
    | last valid' => exact absurd valid' ended
    | cons valid' => exact absurd valid' ended

theorem foobar_printable : Printable [foobarItem] := by
  constructor
  · rintro item mem none
    rw [mem_singleton.mp mem] at none
    cases none
  · rintro item mem name long
    rw [mem_singleton.mp mem] at long
    cases long
    decide

theorem foobar_reopens : ∀ item ∈ visible [foobarItem], Reopens [foobarItem] item := by
  intro item mem
  rw [mem_singleton.mp (mem_of_visible mem).1]
  exact ⟨foobarItem, rfl, by decide, rfl, rfl⟩

end Xos.Fs
