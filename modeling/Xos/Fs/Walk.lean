import Xos.Fs.Directory

/-!
# Walks through a directory

`open` and `fat32_readdir` have the same three loops around different bodies. What holds of such a walk follows from
what holds of its body.
-/
namespace Xos.Fs

variable {σ ρ : Type} {body : DirEntry → σ → Outcome (Round σ ρ)} {v : Volume} {stack : Sector}

/-- What holds of the state if the walk goes on, and of the result if it is left. -/
def Round.Satisfies (inv : σ → Prop) (post : ρ → Prop) : Round σ ρ → Prop
  | .more s => inv s
  | .left r => post r

variable {s : σ} {lba : BitVec 32}

section Rules

variable {inv : σ → Prop} {post : ρ → Prop} {fails : Stop → Prop}

/-- The rounds of a walk keep this of its state. -/
def Keeps (body : DirEntry → σ → Outcome (Round σ ρ)) (inv : σ → Prop) (post : ρ → Prop) (fails : Stop → Prop) : Prop :=
  ∀ e s, inv s → (body e s).Meets (Round.Satisfies inv post) fails

variable (keeps : Keeps body inv post fails)
include keeps

theorem Keeps.entries (es : List DirEntry) (initial : inv s) :
    (walkEntries body es s).Meets (Round.Satisfies inv post) fails := by
  induction es generalizing s with
  | nil => exact initial
  | cons e rest ih =>
    rw [walkEntries]
    refine (keeps e s initial).bind fun round holds => ?_
    cases round with
    | more s => exact ih holds
    | left r => exact holds

theorem Keeps.sectors (v : Volume) (n : Nat) (lba : BitVec 32) (buf : Sector) (initial : inv s) :
    (walkSectors body v n lba buf s).Meets (fun res => res.1.Satisfies inv post) fails := by
  induction n generalizing lba buf s with
  | zero => exact initial
  | succ n ih =>
    rw [walkSectors]
    refine (keeps.entries _ initial).bind fun round holds => ?_
    cases round with
    | more s => exact ih _ _ holds
    | left r => exact holds

theorem Keeps.chain (diverges : fails .diverges) (v : Volume) (stack : Sector) (fuel : Nat) (cluster : BitVec 32) (buf : Sector)
    (initial : inv s) : (walkChain body v stack fuel cluster buf s).Meets (fun res => res.1.Satisfies inv post) fails := by
  induction fuel generalizing cluster buf s with
  | zero => exact diverges
  | succ fuel ih =>
    rw [walkChain]
    split
    · refine (keeps.sectors v _ _ buf initial).bind fun res holds => ?_
      obtain ⟨round, buf⟩ := res
      cases round with
      | more s => exact ih _ _ holds
      | left r => exact holds
    · exact initial

end Rules

section Reads

section

variable (reads : ∀ lba, (v.disk lba).isSome)
include reads

theorem blockRead_eq (lba : BitVec 32) (buf : Sector) : v.blockRead lba buf = v.sector lba := by
  obtain ⟨bytes, found⟩ := Option.isSome_iff_exists.mp (reads lba)
  simp [Volume.sector, Volume.blockRead, found]

theorem nextCluster_eq (stack : Sector) (cluster : BitVec 32) :
    nextCluster v stack cluster = v.next cluster := by
  simp only [Volume.next, nextCluster, blockRead_eq reads]

omit reads in
theorem walkEntries_append (front rear : List DirEntry) (s : σ) :
    walkEntries body (front ++ rear) s = walkEntries body front s >>= fun round =>
      match round with
      | .more s => walkEntries body rear s
      | .left r => pure (.left r) := by
  induction front generalizing s with
  | nil => rfl
  | cons e front ih =>
    rw [List.cons_append, walkEntries, walkEntries]
    cases body e s with
    | error stop => rfl
    | ok round =>
      cases round with
      | more s => exact ih s
      | left r => rfl

theorem walkSectors_eq (body : DirEntry → σ → Outcome (Round σ ρ)) (s : σ) (n : Nat) (lba : BitVec 32) (buf : Sector) :
    ∃ buf', walkSectors body v n lba buf s = walkEntries body (v.entriesFrom n lba) s >>= fun round => pure (round, buf') := by
  induction n generalizing lba buf s with
  | zero => exact ⟨buf, rfl⟩
  | succ n ih =>
    -- the buffer does not matter, since the sector is read anew
    rw [Volume.entriesFrom, walkEntries_append, walkSectors, blockRead_eq reads]
    cases walkEntries body (sectorEntries (v.sector lba)) s with
    | error stop => exact ⟨buf, rfl⟩
    | ok here =>
      cases here with
      | more s => exact ih _ _ _
      | left r => exact ⟨_, rfl⟩

theorem walkChain_eq (body : DirEntry → σ → Outcome (Round σ ρ)) (s : σ) (stack : Sector)
    {cluster : BitVec 32} {chain : List (BitVec 32)}
    (chained : Chain v cluster chain) {fuel : Nat} (enough : chain.length < fuel) (buf : Sector) :
    ∃ buf', walkChain body v stack fuel cluster buf s =
      walkEntries body (v.entries chain) s >>= fun round => pure (round, buf') := by
  induction chained generalizing fuel buf s with
  | @last cluster valid ends =>
    obtain ⟨fuel, rfl⟩ : ∃ k, fuel = k + 2 := ⟨fuel - 2, by simp at enough; omega⟩
    obtain ⟨buf', sectors⟩ := walkSectors_eq reads body s v.bpb.sectorsPerCluster.toNat (clusterToSector v cluster) buf
    rw [Volume.entries, List.flatMap_singleton, walkChain, if_pos valid, sectors]
    cases walkEntries body (v.entriesFrom v.bpb.sectorsPerCluster.toNat (clusterToSector v cluster)) s with
    | error stop => exact ⟨buf, rfl⟩
    | ok here =>
      cases here with
      | more s =>
        -- the next round finds that there is no other cluster
        refine ⟨buf', ?_⟩
        change walkChain body v stack (fuel + 1) (nextCluster v stack cluster) buf' s = _
        rw [nextCluster_eq reads, walkChain, if_neg ends]
        rfl
      | left r => exact ⟨buf', rfl⟩
  | @cons cluster rest valid more ih =>
    obtain ⟨fuel, rfl⟩ : ∃ k, fuel = k + 1 := ⟨fuel - 1, by omega⟩
    obtain ⟨buf', sectors⟩ := walkSectors_eq reads body s v.bpb.sectorsPerCluster.toNat (clusterToSector v cluster) buf
    rw [Volume.entries, List.flatMap_cons, walkEntries_append, walkChain, if_pos valid, sectors]
    cases walkEntries body (v.entriesFrom v.bpb.sectorsPerCluster.toNat (clusterToSector v cluster)) s with
    | error stop => exact ⟨buf, rfl⟩
    | ok here =>
      cases here with
      | more s =>
        change ∃ buf'', walkChain body v stack fuel (nextCluster v stack cluster) buf' s = _
        rw [nextCluster_eq reads]
        exact ih _ (by rw [List.length_cons] at enough; omega) buf'
      | left r => exact ⟨buf', rfl⟩

end

end Reads

def Round.result : Round LfnState Found → Found
  | .more _ => none
  | .left found => found

def DirEntry.pieceNumber (e : DirEntry) : Nat := (e.sequenceNumber &&& lfnSequenceMask).toNat

/-- The piece, and the null byte behind the last piece, has its place in a name of `size` bytes. -/
structure PieceFits (size : Nat) (e : DirEntry) : Prop where
  positive : 0 < e.pieceNumber
  inside : e.pieceNumber * 13 ≤ size
  ended : e.sequenceNumber &&& lfnEntryLast ≠ 0 → e.pieceNumber * 13 < size

theorem writePiece_meets (size : Nat) (e : DirEntry) (name : Nat → Byte) : (writePiece size e name).Meets (fun _ => PieceFits size e)
      fun stop => stop = .overwrites (e.pieceNumber * 13) ∧ ¬PieceFits size e := by
  -- the null byte is written before the piece
  have marks : (endNameIn size e name e.pieceNumber).Meets
      (fun _ => e.sequenceNumber &&& lfnEntryLast ≠ 0 → e.pieceNumber * 13 < size)
      fun stop => stop = .overwrites (e.pieceNumber * 13) ∧ ¬PieceFits size e := by
    unfold endNameIn
    split
    · next unmarked => exact fun marked => absurd unmarked marked
    · next marked =>
      split
      · next outside => exact ⟨rfl, fun fits => absurd (fits.ended marked) (Nat.not_lt.mpr outside)⟩
      · next inside => exact fun _ => Nat.lt_of_not_le inside
  refine marks.bind fun name ended => ?_
  unfold parseLfnNameIn
  split
  · next outside =>
    refine ⟨rfl, fun fits => ?_⟩
    rcases outside with zero | behind
    · exact absurd zero (Nat.ne_of_gt fits.positive)
    · exact absurd behind (Nat.not_lt.mpr fits.inside)
  · next inside =>
    rw [not_or] at inside
    exact ⟨Nat.pos_of_ne_zero inside.1, Nat.le_of_not_lt inside.2, ended⟩

theorem pathMatches_meets {nameBuf : Nat → Byte} (comp : List Byte) {i : Nat} (inside : i ≤ nameBufSize) :
    (pathMatches nameBuf comp i).Meets (fun _ => True) (· = .outOfBounds nameBufSize) := by
  induction comp generalizing i with
  | nil => trivial
  | cons c rest ih =>
    unfold pathMatches
    split
    · next outside => exact congrArg _ (Nat.le_antisymm inside outside)
    · next below =>
      split
      · trivial
      · split
        · trivial
        · exact ih (Nat.lt_of_not_le below)

/-- What a round of `open` can lead to: the only entry it finds is the one it looks at, and it stops only at a piece that does
not fit or when it reads behind `name_buf`. -/
theorem scanEntry_meets (comp : List Byte) (e : DirEntry) (st : LfnState) : (scanEntry comp e st).Meets
      (Round.Satisfies (fun _ => True) fun found => ∀ entry ∈ found, entry.1 = e ∧ e.Plain)
      fun stop => stop = .outOfBounds nameBufSize ∨
        e.attributes = attrLfn ∧ stop = .overwrites (e.pieceNumber * 13) ∧ ¬PieceFits nameBufSize e := by
  by_cases zero : e.name 0 = 0x00
  · rw [scanEntry, if_pos zero]
    simp [Outcome.Meets, Round.Satisfies]
  by_cases deleted : e.name 0 = 0xE5
  · rw [scanEntry, if_neg zero, if_pos deleted]
    trivial
  by_cases piece : e.attributes = attrLfn
  · rw [scanEntry, if_neg zero, if_neg deleted, if_pos piece]
    refine ((writePiece_meets nameBufSize e st.nameBuf).weaken (fun _ fits => fits) fun stop outside => ?_).bind fun _ _ => trivial
    exact .inr ⟨piece, outside⟩
  by_cases label : e.attributes &&& attrVolume ≠ 0
  · rw [scanEntry, if_neg zero, if_neg deleted, if_neg piece, if_pos label]
    trivial
  have plain : e.Plain := ⟨zero, deleted, piece, not_not.mp label⟩
  rw [scanEntry, if_neg zero, if_neg deleted, if_neg piece, if_neg label]
  have long : (longMatches comp st).Meets (fun _ => True) (· = .outOfBounds nameBufSize) := by
    unfold longMatches
    split
    · exact pathMatches_meets comp (Nat.zero_le _)
    · trivial
  refine (long.weaken (fun _ => id) fun _ => .inl).bind fun matched _ => ?_
  split
  · simp [Outcome.Meets, Round.Satisfies, plain]
  · trivial

/-- What a round of `fat32_readdir` can lead to: it writes below `max` and counts up to there, and it stops only at a piece that
does not fit or at the end of the output. -/
theorem listEntry_meets (max : Int) (e : DirEntry) (l : Listing) : (listEntry max e l).Meets
      (Round.Satisfies
        (fun l' => (∀ i : Nat, max ≤ i → l'.out i = l.out i) ∧ ((l.countRead : Int) < max → (l'.countRead : Int) < max))
        fun l' => (∀ i : Nat, max ≤ i → l'.out i = l.out i) ∧ ((l.countRead : Int) < max → (l'.countRead : Int) ≤ max))
      fun stop => stop = .overwrites l.countRead ∧ max ≤ l.countRead ∨
        e.attributes = attrLfn ∧ stop = .overwrites (e.pieceNumber * 13) ∧ ¬PieceFits direntNameSize e := by
  by_cases zero : e.name 0 = 0x00
  · rw [listEntry, if_pos zero]
    exact ⟨fun _ _ => rfl, fun below => below.le⟩
  by_cases deleted : e.name 0 = 0xE5
  · rw [listEntry, if_neg zero, if_pos deleted]
    exact ⟨fun _ _ => rfl, id⟩
  by_cases dots : e.name 0 = dot
  · rw [listEntry, if_neg zero, if_neg deleted, if_pos dots]
    exact ⟨fun _ _ => rfl, id⟩
  by_cases full : (l.countRead : Int) ≥ max
  · rw [listEntry, if_neg zero, if_neg deleted, if_neg dots, if_pos full]
    exact .inl ⟨rfl, full⟩
  -- from here on the round writes to `out[count_read]` only
  have others (d : Dirent) (i : Nat) (behind : max ≤ i) : Function.update l.out l.countRead d i = l.out i :=
    Function.update_of_ne (by omega) d l.out
  rw [listEntry, if_neg zero, if_neg deleted, if_neg dots, if_neg full]
  split
  · next piece =>
    refine ((writePiece_meets direntNameSize e _).weaken (fun _ fits => fits) fun stop outside => ?_).bind fun name _ => ?_
    · exact .inr ⟨piece, outside⟩
    · exact ⟨others _, id⟩
  · dsimp only
    split
    · next last => exact ⟨others _, fun _ => Int.le_of_eq last⟩
    · next room =>
      refine ⟨others _, fun below => ?_⟩
      change ((l.countRead + 1 : Nat) : Int) < max
      omega

section Open

/-- What follows when a component has been looked for: the entry is reported, or the rest of the path is followed from it. -/
def follow (v : Volume) (stack : Sector) (fuel parts : Nat) (after : Option (List Byte)) (found : Found) (buf : Sector) :
    Outcome (Option Fat32File) :=
  found.elim (pure none) fun e =>
    after.elim (pure (some ⟨e.1.firstCluster, e.1.size, e.1.isDir⟩)) fun path =>
      openFrom v stack fuel parts path e.1.firstCluster buf e.2

theorem openFrom_walk (fuel parts : Nat) (path : List Byte) (cluster : BitVec 32) (buf : Sector) (nameBuf : Nat → Byte) :
    openFrom v stack fuel (parts + 1) path cluster buf nameBuf = splitComponent path >>= fun split =>
      walkChain (scanEntry split.1) v stack fuel cluster buf ⟨nameBuf, false⟩ >>= fun walked =>
        follow v stack fuel parts split.2 walked.1.result walked.2 := by
  rw [openFrom]
  congr 1
  funext split
  obtain ⟨component, after⟩ := split
  refine bind_congr fun walked => ?_
  obtain ⟨round, buf⟩ := walked
  rcases round with st | (_ | ⟨e, nameBuf⟩)
  · rfl
  · rfl
  · cases after <;> rfl

end Open
end Xos.Fs
