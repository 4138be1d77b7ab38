import Xos.Fs.Walk

/-!
# Where long names are written

A piece of a long name goes where its sequence number says, and the number comes from the disk. Whether one is written
outside depends on the pieces that a walk comes to before it is left.
-/
namespace Xos.Fs

open Outcome List

section Trace

variable {σ ρ : Type} (body : DirEntry → σ → Outcome (Round σ ρ))

/-- The entries that a loop comes to, and the state that it has there. -/
def lookedAt : List DirEntry → σ → List (DirEntry × σ)
  | [], _ => []
  | e :: rest, s => (e, s) ::
    match body e s with
    | .ok (.more s) => lookedAt rest s
    | _ => []

def lookedAtSectors (v : Volume) : Nat → BitVec 32 → Sector → σ → List (DirEntry × σ)
  | 0, _, _, _ => []
  | n + 1, lba, entries, s => lookedAt body (sectorEntries (v.blockRead lba entries)) s ++
    match walkEntries body (sectorEntries (v.blockRead lba entries)) s with
    | .ok (.more s) => lookedAtSectors v n (lba + 1) (v.blockRead lba entries) s
    | _ => []

def lookedAtChain (v : Volume) (stack : Sector) : Nat → BitVec 32 → Sector → σ → List (DirEntry × σ)
  | 0, _, _, _ => []
  | fuel + 1, cluster, entries, s =>
    if cluster < clusterEnd then
      lookedAtSectors body v v.bpb.sectorsPerCluster.toNat (clusterToSector v cluster) entries s ++
        match walkSectors body v v.bpb.sectorsPerCluster.toNat (clusterToSector v cluster) entries s with
        | .ok (.more s, entries) => lookedAtChain v stack fuel (nextCluster v stack cluster) entries s
        | _ => []
    else []

section Stops

variable (v : Volume) (stack : Sector) (stop : Stop)

/-- A loop stops exactly if its body does, at an entry that it comes to. -/
theorem walkEntries_stops (es : List DirEntry) (s : σ) :
    walkEntries body es s = .error stop ↔ ∃ p ∈ lookedAt body es s, body p.1 p.2 = .error stop := by
  induction es generalizing s with
  | nil => simp [walkEntries, lookedAt]
  | cons e rest ih =>
    rw [walkEntries, lookedAt]
    rcases here : body e s with stop' | s' | r
    · simp [here, error_bind]
    · simp [here, ok_bind, ih]
    · simp [here, ok_bind]

theorem walkSectors_stops (n : Nat) (lba : BitVec 32) (buf : Sector) (s : σ) :
    walkSectors body v n lba buf s = .error stop ↔ ∃ p ∈ lookedAtSectors body v n lba buf s, body p.1 p.2 = .error stop := by
  induction n generalizing lba buf s with
  | zero => simp [walkSectors, lookedAtSectors]
  | succ n ih =>
    have first := walkEntries_stops body stop (sectorEntries (v.blockRead lba buf)) s
    rw [walkSectors, lookedAtSectors]
    rcases here : walkEntries body (sectorEntries (v.blockRead lba buf)) s with stop' | s' | r <;> rw [here] at first
    · simpa [error_bind] using first
    · simp only [ok_bind, mem_append, or_and_right, exists_or, ih, ← first]
      simp
    · simpa [ok_bind] using first

theorem walkChain_stops (other : stop ≠ .diverges) (fuel : Nat) (cluster : BitVec 32) (buf : Sector) (s : σ) :
    walkChain body v stack fuel cluster buf s = .error stop ↔
      ∃ p ∈ lookedAtChain body v stack fuel cluster buf s, body p.1 p.2 = .error stop := by
  induction fuel generalizing cluster buf s with
  | zero => simpa [walkChain, lookedAtChain] using other.symm
  | succ fuel ih =>
    rw [walkChain, lookedAtChain]
    by_cases valid : cluster < clusterEnd
    · have first := walkSectors_stops body v stop v.bpb.sectorsPerCluster.toNat (clusterToSector v cluster) buf s
      rw [if_pos valid, if_pos valid]
      rcases here : walkSectors body v v.bpb.sectorsPerCluster.toNat (clusterToSector v cluster) buf s with
        stop' | ⟨s' | r, buf'⟩ <;> rw [here] at first
      · simpa [error_bind] using first
      · simp only [ok_bind, mem_append, or_and_right, exists_or, ih, ← first]
        simp
      · simpa [ok_bind] using first
    · simp [valid]

/-- A walk stops with a write outside exactly if it comes to an entry that makes its body do so. -/
theorem walkChain_overwrites (fuel : Nat) (cluster : BitVec 32) (buf : Sector) (s : σ) (bad : DirEntry → Prop)
    (writes : ∀ p ∈ lookedAtChain body v stack fuel cluster buf s,
      (∃ i, body p.1 p.2 = .error (.overwrites i)) ↔ bad p.1) :
    (∃ i, walkChain body v stack fuel cluster buf s = .error (.overwrites i)) ↔
      ∃ e ∈ (lookedAtChain body v stack fuel cluster buf s).map Prod.fst, bad e := by
  have stops (i : Nat) := walkChain_stops body v stack (.overwrites i) (fun same => by cases same) fuel cluster buf s
  constructor
  · rintro ⟨i, stopped⟩
    obtain ⟨p, mem, here⟩ := (stops i).mp stopped
    exact ⟨p.1, mem_map_of_mem mem, (writes p mem).mp ⟨i, here⟩⟩
  · rintro ⟨e, mem, wrong⟩
    obtain ⟨p, inside, rfl⟩ := mem_map.mp mem
    obtain ⟨i, here⟩ := (writes p inside).mpr wrong
    exact ⟨i, (stops i).mpr ⟨p, inside, here⟩⟩

end Stops

section

variable {body} {inv : σ → Prop} {post : ρ → Prop} {fails : Stop → Prop} (keeps : Keeps body inv post fails) {s : σ}
include keeps

/-- What the rounds keep holds wherever a loop comes to. -/
theorem Keeps.lookedAt {es : List DirEntry} (initial : inv s) : ∀ p ∈ lookedAt body es s, inv p.2 := by
  induction es generalizing s with
  | nil => simp [Fs.lookedAt]
  | cons e rest ih =>
    have round := keeps e s initial
    rw [Fs.lookedAt]
    intro p mem
    rcases mem_cons.mp mem with rfl | later
    · exact initial
    · rcases here : body e s with stop | s' | r <;> rw [here] at round later
      · simp at later
      · exact ih round p later
      · simp at later

theorem Keeps.lookedAtSectors (v : Volume) (n : Nat) (lba : BitVec 32) (buf : Sector) (initial : inv s) :
    ∀ p ∈ lookedAtSectors body v n lba buf s, inv p.2 := by
  induction n generalizing lba buf s with
  | zero => simp [Fs.lookedAtSectors]
  | succ n ih =>
    have rounds := keeps.entries (sectorEntries (v.blockRead lba buf)) initial
    rw [Fs.lookedAtSectors]
    intro p mem
    rcases mem_append.mp mem with now | later
    · exact keeps.lookedAt initial p now
    · rcases here : walkEntries body (sectorEntries (v.blockRead lba buf)) s with stop | s' | r <;> rw [here] at rounds later
      · simp at later
      · exact ih _ _ rounds p later
      · simp at later

theorem Keeps.lookedAtChain (v : Volume) (stack : Sector) (fuel : Nat) (cluster : BitVec 32) (buf : Sector) (initial : inv s) :
    ∀ p ∈ lookedAtChain body v stack fuel cluster buf s, inv p.2 := by
  induction fuel generalizing cluster buf s with
  | zero => simp [Fs.lookedAtChain]
  | succ fuel ih =>
    have rounds := keeps.sectors v v.bpb.sectorsPerCluster.toNat (clusterToSector v cluster) buf initial
    rw [Fs.lookedAtChain]
    intro p mem
    split at mem
    · rcases mem_append.mp mem with now | later
      · exact keeps.lookedAtSectors v _ _ buf initial p now
      · rcases here : walkSectors body v v.bpb.sectorsPerCluster.toNat (clusterToSector v cluster) buf s with
          stop | ⟨s' | r, buf'⟩ <;> rw [here] at rounds later
        · simp at later
        · exact ih _ _ rounds p later
        · simp at later
    · simp at mem

end

end Trace

/-- A piece of a long name that has not been deleted. -/
structure DirEntry.IsPiece (e : DirEntry) : Prop where
  nonzero : e.name 0 ≠ 0x00
  live : e.name 0 ≠ 0xE5
  lfn : e.attributes = attrLfn

theorem writePiece_stops {size : Nat} {e : DirEntry} (name : Nat → Byte) :
    (∃ i, writePiece size e name = .error (.overwrites i)) ↔ ¬PieceFits size e := by
  have meets := writePiece_meets size e name
  rcases done : writePiece size e name with stop | name' <;> rw [done] at meets
  · exact iff_of_true ⟨_, congrArg _ meets.1⟩ meets.2
  · have fits : PieceFits size e := meets
    simpa using fits

section Open

variable {v : Volume} {e : DirEntry}

theorem scanEntry_overwrites (comp : List Byte) (st : LfnState) :
    (∃ i, scanEntry comp e st = .error (.overwrites i)) ↔ e.IsPiece ∧ ¬PieceFits nameBufSize e := by
  by_cases piece : e.IsPiece
  · rw [scanEntry, if_neg piece.nonzero, if_neg piece.live, if_pos piece.lfn, and_iff_right piece,
      ← writePiece_stops st.nameBuf]
    cases writePiece nameBufSize e st.nameBuf <;> simp [error_bind, ok_bind]
  · -- only a piece is written, and what is read is another stop
    refine iff_of_false ?_ fun both => piece both.1
    rintro ⟨i, stopped⟩
    rcases (scanEntry_meets comp e st).failed stopped with read | ⟨lfn, -⟩
    · cases read
    · by_cases zero : e.name 0 = 0x00
      · rw [scanEntry, if_pos zero] at stopped
        cases stopped
      · by_cases deleted : e.name 0 = 0xE5
        · rw [scanEntry, if_neg zero, if_pos deleted] at stopped
          cases stopped
        · exact piece ⟨zero, deleted, lfn⟩

/-- The entries that `open` comes to, in the directory at hand and in those behind the entry that it finds there. -/
def lookedAtPath (v : Volume) (stack : Sector) (fuel : Nat) :
    Nat → List Byte → BitVec 32 → Sector → (Nat → Byte) → List DirEntry
  | 0, _, _, _, _ => []
  | parts + 1, path, cluster, buf, nameBuf =>
    match splitComponent path with
    | .error _ => []
    | .ok (comp, after) =>
      (lookedAtChain (scanEntry comp) v stack fuel cluster buf ⟨nameBuf, false⟩).map Prod.fst ++
        match walkChain (scanEntry comp) v stack fuel cluster buf ⟨nameBuf, false⟩, after with
        | .ok (.left (some (e, nameBuf)), buf), some rest => lookedAtPath v stack fuel parts rest e.firstCluster buf nameBuf
        | _, _ => []

theorem openFrom_overwrites {stack : Sector} {fuel parts : Nat} {path : List Byte} {cluster : BitVec 32} {buf : Sector}
    {nameBuf : Nat → Byte} : (∃ i, openFrom v stack fuel parts path cluster buf nameBuf = .error (.overwrites i)) ↔
      ∃ e ∈ lookedAtPath v stack fuel parts path cluster buf nameBuf, e.IsPiece ∧ ¬PieceFits nameBufSize e := by
  induction parts generalizing path cluster buf nameBuf with
  | zero => simp [openFrom, lookedAtPath]
  | succ parts ih =>
    rw [openFrom_walk, lookedAtPath]
    rcases split : splitComponent path with stop | ⟨comp, after⟩
    · have noWrite : ∀ i, stop ≠ .overwrites i := by
        rintro i rfl
        cases path with
        | nil => cases split
        | cons c rest =>
          rw [splitComponent] at split
          split at split <;> cases split
      simp [error_bind, noWrite]
    have first := walkChain_overwrites (scanEntry comp) v stack fuel cluster buf ⟨nameBuf, false⟩
      (fun e => e.IsPiece ∧ ¬PieceFits nameBufSize e) fun p _ => scanEntry_overwrites comp p.2
    simp only [ok_bind, mem_append, or_and_right, exists_or, ← first]
    rcases walkChain (scanEntry comp) v stack fuel cluster buf ⟨nameBuf, false⟩ with stop | ⟨st | (_ | ⟨e, nameBuf'⟩), buf'⟩
    · simp [error_bind]
    · simp [ok_bind, follow, Round.result]
    · simp [ok_bind, follow, Round.result]
    · cases after with
      | none => simp [ok_bind, follow, Round.result]
      | some rest => simpa [ok_bind, follow, Round.result] using ih

end Open

/-- The entries that `open` comes to from the root directory on. -/
def openLooksAt (v : Volume) (stack : Stack) (fuel : Nat) (path : List Byte) : List DirEntry :=
  if path = [slash] then []
  else lookedAtPath v stack.buf fuel (path.length + 1) (path.drop 1) v.bpb.rootCluster stack.entries stack.nameBuf

theorem openPath_overwrites (v : Volume) (stack : Stack) (fuel : Nat) (path : List Byte) :
    (∃ i, openPath v stack fuel path = .error (.overwrites i)) ↔
      ∃ e ∈ openLooksAt v stack fuel path, e.IsPiece ∧ ¬PieceFits nameBufSize e := by
  rw [openPath, openLooksAt]
  split
  · simp
  · exact openFrom_overwrites

section Readdir

variable {v : Volume} {max : Int} {out : Nat → Dirent}

theorem listEntry_overwrites {e : DirEntry} {l : Listing} (within : (l.countRead : Int) < max ∨ max ≤ 0) :
    (∃ i, listEntry max e l = .error (.overwrites i)) ↔
      (e.name 0 ≠ 0x00 ∧ e.name 0 ≠ 0xE5 ∧ e.name 0 ≠ dot) ∧ (max ≤ 0 ∨ e.attributes = attrLfn ∧ ¬PieceFits direntNameSize e) := by
  by_cases listed : e.name 0 ≠ 0x00 ∧ e.name 0 ≠ 0xE5 ∧ e.name 0 ≠ dot
  · rw [listEntry, if_neg listed.1, if_neg listed.2.1, if_neg listed.2.2, and_iff_right listed]
    by_cases room : (l.countRead : Int) ≥ max
    · rw [if_pos room]
      exact iff_of_true ⟨_, rfl⟩ (.inl (by omega))
    · rw [if_neg room, or_iff_right (by omega)]
      by_cases piece : e.attributes = attrLfn
      · rw [if_pos piece, and_iff_right piece, ← writePiece_stops (l.out l.countRead).name]
        cases writePiece direntNameSize e (l.out l.countRead).name <;> simp [error_bind, ok_bind]
      · rw [if_neg piece]
        dsimp only
        split <;> simp [piece]
  · refine iff_of_false ?_ fun both => listed both.1
    rintro ⟨i, stopped⟩
    apply listed
    rw [listEntry] at stopped
    split at stopped
    · cases stopped
    split at stopped
    · cases stopped
    split at stopped
    · cases stopped
    · next first second third => exact ⟨first, second, third⟩

theorem listEntry_keeps (max : Int) (out : Nat → Dirent) : Keeps (listEntry max)
    (fun l => ((l.countRead : Int) < max ∨ max ≤ 0) ∧ ∀ i : Nat, max ≤ i → l.out i = out i)
    (fun l => ∀ i : Nat, max ≤ i → l.out i = out i) fun _ => True := by
  rintro e l ⟨within, kept⟩
  refine (listEntry_meets max e l).weaken (fun round holds => ?_) fun _ _ => trivial
  cases round with
  | more l' => exact ⟨within.imp_left holds.2, fun i behind => (holds.1 i behind).trans (kept i behind)⟩
  | left l' => exact fun i behind => (holds.1 i behind).trans (kept i behind)

/-- The entries that `fat32_readdir` comes to in the directory that `open` has found. -/
def readdirLooksAt (v : Volume) (stack : Stack) (entries : Sector) (fuel : Nat) (path : List Byte) (out : Nat → Dirent)
    (max : Int) : List DirEntry :=
  match openPath v stack fuel path with
  | .ok (some file) =>
    if file.isDir = false then []
    else (lookedAtChain (listEntry max) v stack.buf fuel file.firstCluster entries ⟨out, 0, false⟩).map Prod.fst
  | _ => []

theorem listing_inside (v : Volume) (stack : Sector) (fuel : Nat) (cluster : BitVec 32) (entries : Sector) (out : Nat → Dirent)
    (max : Int) : (walkChain (listEntry max) v stack fuel cluster entries ⟨out, 0, false⟩ >>= fun walked =>
        match walked.1 with
        | .more l => pure (l.countRead, l.out)
        | .left l => pure (l.countRead, l.out)).Meets (fun result : Nat × (Nat → Dirent) => ∀ i : Nat, max ≤ i → result.2 i = out i)
          (fun stop => ∀ i, stop ≠ .overwrites i) ↔
      ∀ e ∈ (lookedAtChain (listEntry max) v stack fuel cluster entries ⟨out, 0, false⟩).map Prod.fst,
        e.name 0 ≠ 0x00 ∧ e.name 0 ≠ 0xE5 ∧ e.name 0 ≠ dot → 0 < max ∧ (e.attributes = attrLfn → PieceFits direntNameSize e) := by
  have keeps := listEntry_keeps max out
  have initial : (((⟨out, 0, false⟩ : Listing).countRead : Int) < max ∨ max ≤ 0) ∧
      ∀ i : Nat, max ≤ i → (⟨out, 0, false⟩ : Listing).out i = out i := ⟨by dsimp only; omega, fun _ _ => rfl⟩
  have within := keeps.lookedAtChain v stack fuel cluster entries initial
  have walk := keeps.chain trivial v stack fuel cluster entries initial
  -- the walk stops with a write exactly at an entry that does not fit
  have stops : (∃ i, walkChain (listEntry max) v stack fuel cluster entries ⟨out, 0, false⟩ = .error (.overwrites i)) ↔
      ∃ e ∈ (lookedAtChain (listEntry max) v stack fuel cluster entries ⟨out, 0, false⟩).map Prod.fst,
        (e.name 0 ≠ 0x00 ∧ e.name 0 ≠ 0xE5 ∧ e.name 0 ≠ dot) ∧ (max ≤ 0 ∨ e.attributes = attrLfn ∧ ¬PieceFits direntNameSize e) :=
    walkChain_overwrites _ _ _ _ _ _ _ _ fun p mem => listEntry_overwrites (within p mem).1
  have fits : (∀ e ∈ (lookedAtChain (listEntry max) v stack fuel cluster entries ⟨out, 0, false⟩).map Prod.fst,
      e.name 0 ≠ 0x00 ∧ e.name 0 ≠ 0xE5 ∧ e.name 0 ≠ dot → 0 < max ∧ (e.attributes = attrLfn → PieceFits direntNameSize e)) ↔
      ¬∃ i, walkChain (listEntry max) v stack fuel cluster entries ⟨out, 0, false⟩ = .error (.overwrites i) := by
    rw [stops]
    push Not
    rfl
  rw [fits]
  rcases walked : walkChain (listEntry max) v stack fuel cluster entries ⟨out, 0, false⟩ with stop | ⟨l | l, buf⟩ <;>
    rw [walked] at walk
  · simp [Meets, error_bind]
  · have kept : ∀ i : Nat, max ≤ i → l.out i = out i := walk.2
    simpa [Meets, ok_bind] using kept
  · have kept : ∀ i : Nat, max ≤ i → l.out i = out i := walk
    simpa [Meets, ok_bind] using kept

theorem openPath_inside (v : Volume) (stack : Stack) (fuel : Nat) (path : List Byte) :
    (∀ i, openPath v stack fuel path ≠ .error (.overwrites i)) ↔
      ∀ e ∈ openLooksAt v stack fuel path, e.IsPiece → PieceFits nameBufSize e := by
  simpa using not_congr (openPath_overwrites v stack fuel path)

/-- Its own writes stay inside exactly if there is an output entry for what it lists, and the pieces fit. -/
theorem fat32Readdir_inside (v : Volume) (stack : Stack) (entries : Sector) (fuel : Nat) (path : List Byte) (out : Nat → Dirent)
    (max : Int) : (fat32Readdir v stack entries fuel path out max).Meets (fun result => ∀ i : Nat, max ≤ i → result.2 i = out i)
        (fun stop => ∀ i, stop ≠ .overwrites i) ↔
      (∀ e ∈ openLooksAt v stack fuel path, e.IsPiece → PieceFits nameBufSize e) ∧
        ∀ e ∈ readdirLooksAt v stack entries fuel path out max, e.name 0 ≠ 0x00 ∧ e.name 0 ≠ 0xE5 ∧ e.name 0 ≠ dot →
          0 < max ∧ (e.attributes = attrLfn → PieceFits direntNameSize e) := by
  rw [← openPath_inside, fat32Readdir, readdirLooksAt]
  rcases openPath v stack fuel path with stop | _ | file
  · simp [Meets, error_bind]
  · simp [Meets, ok_bind]
  · by_cases isDir : file.isDir = false
    · simp [Meets, ok_bind, isDir]
    · simp only [ok_bind, if_neg isDir]
      rw [and_iff_right (fun i => by simp)]
      exact listing_inside v stack.buf fuel file.firstCluster entries out max

end Readdir

/-- A volume with two entries in its root directory, which is one sector long: a piece with the sequence number `number`, and one
that ends the directory. -/
def pieceVolume (number : Byte) : Volume where
  bpb := ⟨1, 1, 1, 1, 2⟩
  lbaStart := 0
  disk lba := some fun i => if lba = 2 then (if i = 0 then number else if i = 11 then attrLfn else 0) else 0xFF

end Xos.Fs
