import Xos.Fs.LongNames

/-!
# What `open` finds

On a well-formed volume `open` has the long name of an item in `name_buf` when it comes to its entry. It takes the first
item that `path_matches` or `name_matches` accepts, and comes to grief at a long name that does not fit into `name_buf`.
-/
namespace Xos.Fs

open List Outcome

/-- The long name fits into `name_buf` with its null byte. -/
def DirItem.Fits (item : DirItem) : Prop := ∀ name ∈ item.long, name.length ≤ 247

instance (item : DirItem) : Decidable item.Fits := by
  unfold DirItem.Fits
  infer_instance

/-- What `path_matches` says of the long name, or `name_matches` of the short one. -/
def DirItem.accepted (item : DirItem) (component : List Byte) : Bool :=
  (item.long.any fun name => decide (BeginsWith component (lowBytes name))) || nameMatches item.entry.name component

/-- The item at which the search for a component stops. -/
def stopsAt (items : List DirItem) (component : List Byte) : Option DirItem :=
  items.find? fun item => !decide item.Fits || item.accepted component

/-- What a search that stops at this item leads to. -/
def Searched (found : Option DirItem) (walked : Outcome (Round LfnState Found)) : Prop :=
  match found with
  | none => ∃ round, walked = .ok round ∧ round.result = none
  | some item =>
    if item.Fits then ∃ nameBuf, walked = .ok (.left (some (item.entry, nameBuf)))
    else walked = .error (.overwrites 260)

section Scan

variable {comp : List Byte} {st : LfnState} {entries : List DirEntry} {items : List DirItem} {item : DirItem}

theorem scanEntries_pieces (comp : List Byte) {units : List (BitVec 16)} {last k : Nat} {pieces : List DirEntry}
    (whole : LfnPieces units last k pieces) (room : k < 20) {nameBuf : Nat → Byte}
    (written : writePieces nameBufSize pieces st.nameBuf = .ok nameBuf) (ready : k = 0 → st.hasLfn = true) :
    walkEntries (scanEntry comp) pieces st = .ok (.more ⟨nameBuf, true⟩) := by
  induction whole generalizing st with
  | nil =>
    cases written
    rw [walkEntries, ← ready rfl]
    rfl
  | cons piece pieces ih =>
    obtain ⟨nonzero, live, _⟩ := piece.firstByte room
    obtain ⟨mid, first, rest⟩ := of_bind written
    rw [walkEntries, scanEntry, if_neg nonzero, if_neg live, if_pos piece.attributes, first]
    exact ih (by omega) rest fun _ => rfl

theorem scanEntries_longName (comp : List Byte) {name : List (BitVec 16)} {pieces : List DirEntry}
    (holds : LongName name pieces) (fits : name.length ≤ 247) (st : LfnState) :
    ∃ nameBuf, walkEntries (scanEntry comp) pieces st = .ok (.more ⟨nameBuf, true⟩) ∧ Spells nameBuf (lowBytes name) := by
  have long : 0 < name.length := length_pos_iff.mpr holds.nonempty
  have count : pieceCount name = (name.length + 12) / 13 := rfl
  have size : pieceCount name * 13 < nameBufSize := by
    rw [nameBufSize]
    omega
  obtain ⟨nameBuf, written, spells⟩ := holds.write fits size st.nameBuf
  exact ⟨nameBuf, scanEntries_pieces comp holds.pieces (by omega) written fun none => by omega, spells⟩

/-- A longer name has twenty pieces, and the null byte behind the last one is written outside of `name_buf`. -/
theorem scanEntries_overlong {name : List (BitVec 16)} {pieces : List DirEntry} (holds : LongName name pieces)
    (past : ¬name.length ≤ 247) (rest : List DirEntry) :
    walkEntries (scanEntry comp) (pieces ++ rest) st = .error (.overwrites 260) := by
  have short := holds.short
  have count : pieceCount name = 20 := by
    unfold pieceCount
    omega
  have whole := holds.pieces
  rw [count] at whole
  cases whole with
  | @cons k e pieces piece more =>
    have number : e.sequenceNumber = 0x54 := piece.sequence
    have first : e.name 0 = 0x54 := number
    have outside : endNameIn nameBufSize e st.nameBuf 20 = .error (.overwrites 260) := by
      rw [endNameIn, number, if_neg (by decide)]
      rfl
    have written : writePiece nameBufSize e st.nameBuf = .error (.overwrites 260) := by
      rw [writePiece, number, show (0x54 &&& lfnSequenceMask : Byte).toNat = 20 from rfl, outside]
      rfl
    rw [cons_append, walkEntries, scanEntry, if_neg (by rw [first]; decide), if_neg (by rw [first]; decide),
      if_pos piece.attributes, written]
    rfl

/-- An entry behind its long name, or one that has none. -/
theorem scanEntries_item (item : DirItem) {rest : List DirEntry} {long : Bool} (plain : item.entry.Plain) (fits : item.Fits)
    (matched : longMatches comp st = .ok long)
    (agree : long = item.long.any fun name => decide (BeginsWith comp (lowBytes name)))
    (more : Searched (stopsAt items comp) (walkEntries (scanEntry comp) rest { st with hasLfn := false })) :
    Searched (stopsAt (item :: items) comp) (walkEntries (scanEntry comp) (item.entry :: rest) st) := by
  rw [walkEntries, scanEntry, if_neg plain.nonzero, if_neg plain.live, if_neg plain.notLfn,
    if_neg (by simpa using plain.notVolume), matched, ok_bind]
  by_cases here : item.accepted comp = true
  · have stops : stopsAt (item :: items) comp = some item := find?_cons_of_pos (by simp [here])
    rw [if_pos (by simpa [DirItem.accepted, agree] using here), stops, Searched, if_pos fits]
    exact ⟨st.nameBuf, rfl⟩
  · have goes : stopsAt (item :: items) comp = stopsAt items comp := find?_cons_of_neg (by simp [here, fits])
    rw [if_neg (by simpa [DirItem.accepted, agree] using here), goes]
    exact more

/-- Scanning the entries of a directory stops at the item that the list says. -/
theorem Lists.scan (lists : Lists entries items) (nonzero : ∀ c ∈ comp, c ≠ 0) (st : LfnState) (clean : st.hasLfn = false) :
    Searched (stopsAt items comp) (walkEntries (scanEntry comp) entries st) := by
  induction lists generalizing st with
  | nil => exact ⟨.more st, rfl, rfl⟩
  | stop zero =>
    rw [walkEntries, scanEntry, if_pos zero]
    exact ⟨.left none, rfl, rfl⟩
  | @deleted e rest items mark more ih =>
    have nonzero : e.name 0 ≠ 0x00 := by
      rw [mark]
      decide
    rw [walkEntries, scanEntry, if_neg nonzero, if_pos mark]
    exact ih { st with hasLfn := false } rfl
  | volume nonzero live notLfn label more ih =>
    rw [walkEntries, scanEntry, if_neg nonzero, if_neg live, if_neg notLfn, if_pos label]
    exact ih { st with hasLfn := false } rfl
  | @short e rest items plain more ih =>
    have unnamed : longMatches comp st = .ok false := by
      rw [longMatches, clean]
      rfl
    exact scanEntries_item ⟨none, e⟩ plain (fun _ none => absurd none (Option.not_mem_none _)) unnamed rfl (ih { st with hasLfn := false } rfl)
  | @long e name pieces rest items holds plain notDot more ih =>
    by_cases fits : name.length ≤ 247
    · -- the pieces leave the name in the buffer for the entry behind them
      obtain ⟨nameBuf, scanned, spells⟩ := scanEntries_longName comp holds fits st
      have room : (lowBytes name).length < nameBufSize := by
        rw [lowBytes, length_map, nameBufSize]
        omega
      have named : longMatches comp ⟨nameBuf, true⟩ = .ok (decide (BeginsWith comp (lowBytes name))) :=
        pathMatches_from spells room nonzero (Nat.zero_le _)
      rw [walkEntries_append, scanned, ok_bind]
      exact scanEntries_item ⟨some name, e⟩ plain (fun _ same => Option.mem_some.mp same ▸ fits) named rfl
        (ih ⟨nameBuf, false⟩ rfl)
    · have past : ¬(⟨some name, e⟩ : DirItem).Fits := fun all => fits (all name rfl)
      have stops : stopsAt (⟨some name, e⟩ :: items) comp = some ⟨some name, e⟩ := find?_cons_of_pos (by simp [past])
      rw [stops, Searched, if_neg past]
      exact scanEntries_overlong holds fits _

theorem Lists.notDot (lists : Lists entries items) {name : List (BitVec 16)} (mem : item ∈ items)
    (long : item.long = some name) : item.entry.name 0 ≠ dot := by
  induction lists with
  | nil | stop => cases mem
  | deleted mark more ih => exact ih mem
  | volume nonzero live notLfn label more ih => exact ih mem
  | short plain more ih =>
    rcases mem_cons.mp mem with rfl | later
    · cases long
    · exact ih later
  | long holds plain notDot more ih =>
    rcases mem_cons.mp mem with rfl | later
    · exact notDot
    · exact ih later

/-- `name_matches` accepts no name that begins with a dot. -/
theorem nameMatches_notDot {e : DirEntry} (accepted : nameMatches e.name comp = true) : e.name 0 ≠ dot := by
  obtain ⟨-, -, -, base, -⟩ := nameMatches_iff_fields.mp accepted
  have first : e.name 0 = (filled 8 ((basePart comp).map toUpper)).getD 0 0 := by
    rw [← base]
    rfl
  rw [first, filled_getD (by decide)]
  split
  · next some =>
    have inside : ((basePart comp).map toUpper).getD 0 0 ∈ (basePart comp).map toUpper := by
      rw [getD_eq_getElem _ _ some]
      exact getElem_mem some
    obtain ⟨c, mem, same⟩ := mem_map.mp inside
    rw [← same, Ne, toUpper_eq_dot]
    simpa using mem_takeWhile_imp mem
  · decide

theorem stopsAt_notDot (lists : Lists entries items) (stops : stopsAt items comp = some item) (fits : item.Fits) :
    item.entry.name 0 ≠ dot := by
  have accepted : item.accepted comp = true := by simpa [fits] using find?_some stops
  rcases long : item.long with _ | name
  · exact nameMatches_notDot (by simpa [DirItem.accepted, long] using accepted)
  · exact lists.notDot (mem_of_find?_eq_some stops) long

end Scan

/-- What `open` returns when the search for the last component stops at this item. -/
def report : Option DirItem → Outcome (Option Fat32File)
  | none => .ok none
  | some item => if item.Fits then .ok (some item.file) else .error (.overwrites 260)

/-- The search stops at an item whose long name fits, and this reports what the first item of the name does; or it finds
none, and there is no item of the name. -/
def Agrees (items : List DirItem) (component : List Byte) : Prop :=
  (∀ item ∈ stopsAt items component, item.Fits) ∧
    (stopsAt items component).map DirItem.file = (items.find? (·.named component)).map DirItem.file

theorem report_eq_iff {items : List DirItem} {comp : List Byte} :
    report (stopsAt items comp) = .ok ((items.find? (·.named comp)).map DirItem.file) ↔ Agrees items comp := by
  unfold Agrees
  rcases stopsAt items comp with _ | item
  · simp [report]
  · by_cases fits : item.Fits <;> simp [report, fits]

/-- A step holds of each directory and component on the way of a path, as far as the names lead. -/
def OnTheWay (step : List DirItem → List Byte → Prop) (items : BitVec 32 → List DirItem) : List (List Byte) → BitVec 32 → Prop
  | [], _ => True
  | component :: rest, cluster => step (items cluster) component ∧
    ∀ item, (items cluster).find? (·.named component) = some item → OnTheWay step items rest item.entry.firstCluster

/-- What has the name is a directory. -/
def NamesDir (items : List DirItem) (component : List Byte) : Prop :=
  ∀ item, items.find? (·.named component) = some item → item.entry.isDir = true

/-- The names lead from a directory to another one. -/
def LeadsTo (items : BitVec 32 → List DirItem) : List (List Byte) → BitVec 32 → BitVec 32 → Prop
  | [], cluster, dir => cluster = dir
  | component :: rest, cluster, dir => ∃ item, (items cluster).find? (·.named component) = some item ∧
    item.entry.isDir = true ∧ LeadsTo items rest item.entry.firstCluster dir

section Paths

variable {v : Volume} {dirs : Set (BitVec 32)} {items : BitVec 32 → List DirItem} {comp : List Byte}
  {components : List (List Byte)} {cluster : BitVec 32} {item : DirItem} {x : Outcome (Option Fat32File)}

theorem OnTheWay.front {step : List DirItem → List Byte → Prop} {more : List (List Byte)}
    (all : OnTheWay step items (components ++ more) cluster) : OnTheWay step items components cluster := by
  induction components generalizing cluster with
  | nil => trivial
  | cons comp rest ih => exact ⟨all.1, fun item first => ih (all.2 item first)⟩

/-- The path without its first slash. -/
def relative (components : List (List Byte)) : List Byte := (components.flatMap (slash :: ·)).drop 1

theorem splitComponent_relative (name : Component comp) (rest : List (List Byte)) :
    splitComponent (relative (comp :: rest)) = .ok (comp, if rest = [] then none else some (relative rest)) := by
  rcases comp with _ | ⟨c, comp⟩
  · exact absurd rfl name.nonempty
  have noSlash : slash ∉ comp := fun mem => name.noSlash (mem_cons_of_mem c mem)
  cases rest with
  | nil =>
    have path : relative [c :: comp] = c :: comp := by simp [relative]
    rw [path, splitComponent, dropWhile_ne_eq_nil noSlash]
    rfl
  | cons next rest =>
    have path : relative ((c :: comp) :: next :: rest) = c :: (comp ++ slash :: relative (next :: rest)) := by simp [relative]
    rw [path, splitComponent, dropWhile_ne_append noSlash, takeWhile_ne_append noSlash]
    rfl

/-- From a cluster on, `open` returns this for the rest of a path, whatever is left in its buffers. -/
def Opens (v : Volume) (stack : Sector) (components : List (List Byte)) (cluster : BitVec 32)
    (x : Outcome (Option Fat32File)) : Prop :=
  ∃ n, ∀ fuel, n ≤ fuel → ∀ parts, components.length ≤ parts → ∀ buf nameBuf,
    openFrom v stack fuel parts (relative components) cluster buf nameBuf = x

section

variable (formed : WellFormed v dirs items) (mem : cluster ∈ dirs) (name : Component comp) (stack : Sector)
include formed mem name

theorem WellFormed.search : ∃ n, ∀ fuel, n ≤ fuel → ∀ buf nameBuf, ∃ walked buf',
    walkChain (scanEntry comp) v stack fuel cluster buf ⟨nameBuf, false⟩ = (walked >>= fun round => pure (round, buf')) ∧
      Searched (stopsAt (items cluster) comp) walked := by
  obtain ⟨chain, chained, lists⟩ := formed.lists cluster mem
  -- one round for each cluster, and one to see that the chain has ended
  refine ⟨chain.length + 1, fun fuel enough buf nameBuf => ?_⟩
  obtain ⟨buf', walked⟩ := walkChain_eq formed.reads (scanEntry comp) ⟨nameBuf, false⟩ stack chained enough buf
  exact ⟨_, buf', walked, lists.scan name.nonzero ⟨nameBuf, false⟩ rfl⟩

theorem WellFormed.opens_cons {rest : List (List Byte)} (n : Nat)
    (next : ∀ item, stopsAt (items cluster) comp = some item → item.Fits →
      ∀ fuel, n ≤ fuel → ∀ parts, rest.length ≤ parts → ∀ buf nameBuf,
        (if rest = [] then none else some (relative rest)).elim (.ok (some item.file))
          (fun path => openFrom v stack fuel parts path item.entry.firstCluster buf nameBuf) = x)
    (missing : stopsAt (items cluster) comp = none → x = .ok none)
    (past : ∀ item, stopsAt (items cluster) comp = some item → ¬item.Fits → x = .error (.overwrites 260)) :
    Opens v stack (comp :: rest) cluster x := by
  obtain ⟨n', searches⟩ := formed.search mem name stack
  refine ⟨max n n', fun fuel enough parts more buf nameBuf => ?_⟩
  obtain ⟨walked, buf', chain, searched⟩ := searches fuel (by omega) buf nameBuf
  obtain ⟨parts, rfl⟩ : ∃ k, parts = k + 1 := ⟨parts - 1, by rw [length_cons] at more; omega⟩
  rw [openFrom_walk, splitComponent_relative name, ok_bind, chain]
  rcases stops : stopsAt (items cluster) comp with _ | item
  · rw [stops] at searched
    obtain ⟨round, rfl, none⟩ := searched
    rw [missing stops, ok_bind]
    change follow v stack fuel parts _ round.result buf' = _
    rw [none]
    rfl
  · rw [stops, Searched] at searched
    by_cases fits : item.Fits
    · rw [if_pos fits] at searched
      obtain ⟨nameBuf', rfl⟩ := searched
      exact next item stops fits fuel (by omega) parts (by rw [length_cons] at more; omega) buf' nameBuf'
    · rw [if_neg fits] at searched
      rw [searched, past item stops fits]
      rfl

theorem WellFormed.opens_last : Opens v stack [comp] cluster (report (stopsAt (items cluster) comp)) := by
  refine formed.opens_cons mem name stack 0 (fun item stops fits _ _ _ _ _ _ => ?_) (fun stops => ?_) fun item stops past => ?_
  · rw [stops, report, if_pos fits]
    rfl
  · rw [stops, report]
  · rw [stops, report, if_neg past]

theorem WellFormed.opens_missing (rest : List (List Byte)) (missing : stopsAt (items cluster) comp = none) :
    Opens v stack (comp :: rest) cluster (.ok none) :=
  formed.opens_cons mem name stack 0 (fun item stops => by cases missing.symm.trans stops) (fun _ => rfl)
    fun item stops => by cases missing.symm.trans stops

theorem WellFormed.opens_next {rest : List (List Byte)} (more : rest ≠ []) (stops : stopsAt (items cluster) comp = some item)
    (fits : item.Fits) (later : Opens v stack rest item.entry.firstCluster x) : Opens v stack (comp :: rest) cluster x := by
  obtain ⟨n, opens⟩ := later
  refine formed.opens_cons mem name stack n (fun other stops' _ fuel enough parts enough' buf nameBuf => ?_)
    (fun stops' => by cases stops.symm.trans stops') fun other stops' past => ?_
  · cases stops.symm.trans stops'
    rw [if_neg more]
    exact opens fuel enough parts enough' buf nameBuf
  · cases stops.symm.trans stops'
    exact absurd fits past

end

theorem resolve_singleton (cluster : BitVec 32) (name : List Byte) : resolve items [name] cluster =
    (items cluster).find? (·.named name) := by
  rw [resolve]
  cases (items cluster).find? (·.named name) <;> rfl

/-- Where the search agrees with the names, `open` follows a directory. -/
theorem WellFormed.follows (formed : WellFormed v dirs items) (mem : cluster ∈ dirs) (agrees : Agrees (items cluster) comp)
    (first : (items cluster).find? (·.named comp) = some item) (isDir : item.entry.isDir = true) :
    ∃ found, stopsAt (items cluster) comp = some found ∧ found.Fits ∧
      found.entry.firstCluster = item.entry.firstCluster ∧ item.entry.firstCluster ∈ dirs := by
  have same := agrees.2
  rw [first, Option.map_some, Option.map_eq_some_iff] at same
  obtain ⟨found, stops, file⟩ := same
  have place : found.entry.firstCluster = item.entry.firstCluster := congrArg Fat32File.firstCluster file
  have dir : found.entry.isDir = item.entry.isDir := congrArg Fat32File.isDir file
  have fits : found.Fits := agrees.1 found stops
  obtain ⟨chain, -, lists⟩ := formed.lists cluster mem
  refine ⟨found, stops, fits, place, ?_⟩
  rw [← place]
  exact formed.children cluster mem found (mem_of_find?_eq_some stops) (dir.trans isDir) (stopsAt_notDot lists stops fits)

/-- `open` looks for the last component in the directory that the others lead to. -/
theorem WellFormed.opens_leading (formed : WellFormed v dirs items) (stack : Sector) {last : List Byte} {dir : BitVec 32}
    (names : ∀ c ∈ components ++ [last], Component c) (mem : cluster ∈ dirs) (agrees : OnTheWay Agrees items components cluster)
    (leads : LeadsTo items components cluster dir) :
    dir ∈ dirs ∧ resolve items (components ++ [last]) cluster = (items dir).find? (·.named last) ∧
      (OnTheWay Agrees items (components ++ [last]) cluster ↔ Agrees (items dir) last) ∧
      Opens v stack (components ++ [last]) cluster (report (stopsAt (items dir) last)) := by
  induction components generalizing cluster with
  | nil =>
    obtain rfl : cluster = dir := leads
    refine ⟨mem, resolve_singleton cluster last, ?_, formed.opens_last mem (names last (by simp)) stack⟩
    simp [OnTheWay]
  | cons comp rest ih =>
    obtain ⟨item, first, isDir, leads⟩ := leads
    have more : rest ++ [last] ≠ [] := by simp
    obtain ⟨found, stops, fits, place, inside⟩ := formed.follows mem agrees.1 first isDir
    obtain ⟨member, resolved, exact, opens⟩ := ih (fun c inside => names c (mem_cons_of_mem _ inside)) inside
      (agrees.2 item first) leads
    rw [← place] at opens
    refine ⟨member, ?_, ?_, formed.opens_next mem (names comp (by simp)) stack more stops fits opens⟩
    · rw [cons_append, resolve, first, Option.bind_some, if_neg more, if_pos isDir, resolved]
    · simp [OnTheWay, agrees.1, first, exact]

/-- If the names of a path lead nowhere, `open` fails. -/
theorem WellFormed.opens_lost (formed : WellFormed v dirs items) (stack : Sector) {last : List Byte}
    (names : ∀ c ∈ components ++ [last], Component c) (mem : cluster ∈ dirs) (agrees : OnTheWay Agrees items components cluster)
    (through : OnTheWay NamesDir items components cluster) :
    (∃ dir, LeadsTo items components cluster dir) ∨ resolve items (components ++ [last]) cluster = none ∧
      OnTheWay Agrees items (components ++ [last]) cluster ∧ Opens v stack (components ++ [last]) cluster (.ok none) := by
  induction components generalizing cluster with
  | nil => exact .inl ⟨cluster, rfl⟩
  | cons comp rest ih =>
    have name : Component comp := names comp (by simp)
    have more : rest ++ [last] ≠ [] := by simp
    rw [cons_append]
    rcases first : (items cluster).find? (·.named comp) with _ | item
    · have missing : stopsAt (items cluster) comp = none := by simpa [first] using agrees.1.2
      refine .inr ⟨by rw [resolve, first]; rfl, ⟨agrees.1, fun item found => ?_⟩, formed.opens_missing mem name stack _ missing⟩
      rw [first] at found
      cases found
    · have isDir := through.1 item first
      obtain ⟨found, stops, fits, place, inside⟩ := formed.follows mem agrees.1 first isDir
      rcases ih (fun c inside => names c (mem_cons_of_mem _ inside)) inside (agrees.2 item first) (through.2 item first) with
        ⟨dir, leads⟩ | ⟨none, agree, opens⟩
      · exact .inl ⟨dir, item, first, isDir, leads⟩
      · rw [← place] at opens
        refine .inr ⟨?_, ?_, formed.opens_next mem name stack more stops fits opens⟩
        · rw [resolve, first, Option.bind_some, if_neg more, if_pos isDir, none]
        · simp [OnTheWay, agrees.1, first, agree]

theorem length_le_flatMap (components : List (List Byte)) : components.length ≤ (components.flatMap (slash :: ·)).length := by
  induction components with
  | nil => exact Nat.zero_le _
  | cons comp components ih =>
    rw [flatMap_cons, length_append, length_cons, length_cons]
    omega

theorem openPath_eq (stack : Stack) (fuel : Nat) (some : components ≠ []) (names : ∀ c ∈ components, Component c) :
    openPath v stack fuel (pathOf components) = openFrom v stack.buf fuel ((pathOf components).length + 1) (relative components)
      v.bpb.rootCluster stack.entries stack.nameBuf := by
  obtain ⟨comp, rest, rfl⟩ := exists_cons_of_ne_nil some
  have nonempty : comp ≠ [] := (names comp mem_cons_self).nonempty
  have inside : pathOf (comp :: rest) ≠ [slash] := by
    simp [pathOf, nonempty]
  rw [openPath, if_neg inside]
  rfl

/-- `open` reports what a path leads to if this holds of what it returns from the root directory on. -/
theorem Opens.path {stack : Stack} (opens : Opens v stack.buf components v.bpb.rootCluster x) (some : components ≠ [])
    (names : ∀ c ∈ components, Component c) : ∃ n, ∀ fuel, n ≤ fuel → openPath v stack fuel (pathOf components) = x := by
  obtain ⟨n, opens⟩ := opens
  refine ⟨n, fun fuel enough => ?_⟩
  have length : components.length ≤ (pathOf components).length + 1 := by
    have rest := length_le_flatMap components
    rw [pathOf, if_neg some]
    omega
  rw [openPath_eq stack fuel some names]
  exact opens fuel enough _ length _ _

/-- What a path is to lead to is what `open` returns for it. -/
def OpensRight (v : Volume) (items : BitVec 32 → List DirItem) (stack : Stack) (components : List (List Byte)) : Prop :=
  ∃ n, ∀ fuel, n ≤ fuel → openPath v stack fuel (pathOf components) = .ok (lookup v items components)

theorem settled_unique {f : Nat → Outcome (Option Fat32File)} {x y : Outcome (Option Fat32File)}
    (first : ∃ n, ∀ fuel, n ≤ fuel → f fuel = x) (second : ∃ n, ∀ fuel, n ≤ fuel → f fuel = y) : x = y := by
  obtain ⟨n, left⟩ := first
  obtain ⟨n', right⟩ := second
  rw [← left (max n n') (by omega), right (max n n') (by omega)]

/-- If `open` has followed the names of all components but the last, it is right about the path exactly if it agrees in the
last directory as well. -/
theorem WellFormed.opensRight_iff (formed : WellFormed v dirs items) (stack : Stack) {last : List Byte}
    (names : ∀ c ∈ components ++ [last], Component c) (agrees : OnTheWay Agrees items components v.bpb.rootCluster)
    (through : OnTheWay NamesDir items components v.bpb.rootCluster) :
    OpensRight v items stack (components ++ [last]) ↔ OnTheWay Agrees items (components ++ [last]) v.bpb.rootCluster := by
  have some : components ++ [last] ≠ [] := by simp
  have target : lookup v items (components ++ [last]) = (resolve items (components ++ [last]) v.bpb.rootCluster).map DirItem.file :=
    if_neg some
  rw [OpensRight, target]
  rcases formed.opens_lost stack.buf names formed.root agrees through with ⟨dir, leads⟩ | ⟨none, agree, opens⟩
  · obtain ⟨-, resolved, exact, opens⟩ := formed.opens_leading stack.buf names formed.root agrees leads
    have returns := opens.path some names
    rw [resolved, exact, ← report_eq_iff]
    exact ⟨fun right => settled_unique returns right, fun same => same ▸ returns⟩
  · rw [none]
    exact iff_of_true (opens.path some names) agree

end Paths

/-- The bytes of the entries of a file `foobar.txt`: its long name, and the entry for `FOOBAR.TXT`. -/
def foobarBytes : List Byte :=
  [0x41, 0x66, 0, 0x6F, 0, 0x6F, 0, 0x62, 0, 0x61, 0, 0x0F, 0, 0x3F, 0x72, 0, 0x2E, 0, 0x74, 0, 0x78, 0, 0x74, 0, 0, 0, 0, 0, 0xFF,
    0xFF, 0xFF, 0xFF] ++
  [0x46, 0x4F, 0x4F, 0x42, 0x41, 0x52, 0x20, 0x20, 0x54, 0x58, 0x54, 0x20, 0, 0, 0, 0, 0, 0, 0, 0, 0, 0, 0, 0, 0, 0, 0x03, 0, 0x05,
    0, 0, 0]

/-- A volume with this file in its root directory. The table is in sector 1 and the directory in sector 2. -/
def foobarVolume : Volume where
  bpb := ⟨1, 1, 1, 1, 2⟩
  lbaStart := 0
  disk lba := some fun i =>
    if lba = 1 then [0xF8, 0xFF, 0xFF, 0x0F, 0xFF, 0xFF, 0xFF, 0xFF, 0xFF, 0xFF, 0xFF, 0x0F, 0xFF, 0xFF, 0xFF, 0x0F].getD i 0
    else if lba = 2 then foobarBytes.getD i 0
    else 0

/-- `foobar.txt`. -/
def foobarName : List (BitVec 16) := [0x66, 0x6F, 0x6F, 0x62, 0x61, 0x72, 0x2E, 0x74, 0x78, 0x74]

def foobarItem : DirItem := ⟨some foobarName, entryAt (foobarVolume.sector 2) 1⟩

theorem foobar_wellFormed : WellFormed foobarVolume {2} fun _ => [foobarItem] where
  reads _ := rfl
  root := rfl
  lists := by
    rintro cluster rfl
    have chained : Chain foobarVolume 2 [2] := .last (by decide) (by decide)
    refine ⟨[2], chained, ?_⟩
    have entries : foobarVolume.entries [2] = [entryAt (foobarVolume.sector 2) 0] ++ foobarItem.entry ::
      (List.range 14).map fun j => entryAt (foobarVolume.sector 2) (j + 2) := rfl
    rw [entries]
    refine .long ⟨by decide, by decide, .cons ⟨by decide, by decide, by decide⟩ .nil⟩ ⟨by decide, by decide, by decide, by decide⟩
      (by decide) (.stop (by decide))
  children := by
    rintro cluster rfl item mem isDir
    rw [mem_singleton.mp mem] at isDir
    exact absurd isDir (by decide)

/-- `FooBar.TXT`. -/
def foobarComponent : List Byte := [0x46, 0x6F, 0x6F, 0x42, 0x61, 0x72, 0x2E, 0x54, 0x58, 0x54]

theorem foobar_agrees : Agrees [foobarItem] foobarComponent := by
  unfold Agrees
  decide

end Xos.Fs
