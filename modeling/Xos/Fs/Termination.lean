import Xos.Fs.Reading

/-!
# Which chains of clusters are left again

Nothing but the end of a chain stops the loops over clusters. `read` also ends once it has as many bytes as it was asked
for.
-/
namespace Xos.Fs

open Lib (Bytes)
open Outcome (Settles)

/-- From this cluster on, `next_cluster` leads to the end of a chain. -/
inductive Ends (v : Volume) (stack : Sector) : BitVec 32 → Prop
  | ended {cluster : BitVec 32} (invalid : ¬cluster < clusterEnd) : Ends v stack cluster
  | next {cluster : BitVec 32} (more : Ends v stack (nextCluster v stack cluster)) : Ends v stack cluster

section Walk

variable {σ ρ : Type} {body : DirEntry → σ → Outcome (Round σ ρ)} {v : Volume} {stack : Sector} {cluster : BitVec 32}
  {buf : Sector} {s : σ} {x : Outcome (Round σ ρ × Sector)}

/-- The chain of clusters comes to its end, or to a cluster with an entry at which the loops are left or stop, with this
result. -/
inductive Walks (body : DirEntry → σ → Outcome (Round σ ρ)) (v : Volume) (stack : Sector) :
    BitVec 32 → Sector → σ → Outcome (Round σ ρ × Sector) → Prop
  | ended {cluster : BitVec 32} {buf : Sector} {s : σ} (invalid : ¬cluster < clusterEnd) :
      Walks body v stack cluster buf s (.ok (.more s, buf))
  | stops {cluster : BitVec 32} {buf : Sector} {s : σ} {stop : Stop} (valid : cluster < clusterEnd)
      (here : walkSectors body v v.bpb.sectorsPerCluster.toNat (clusterToSector v cluster) buf s = .error stop) :
      Walks body v stack cluster buf s (.error stop)
  | left {cluster : BitVec 32} {buf buf' : Sector} {s : σ} {r : ρ} (valid : cluster < clusterEnd)
      (here : walkSectors body v v.bpb.sectorsPerCluster.toNat (clusterToSector v cluster) buf s = .ok (.left r, buf')) :
      Walks body v stack cluster buf s (.ok (.left r, buf'))
  | next {cluster : BitVec 32} {buf buf' : Sector} {s s' : σ} {x : Outcome (Round σ ρ × Sector)} (valid : cluster < clusterEnd)
      (here : walkSectors body v v.bpb.sectorsPerCluster.toNat (clusterToSector v cluster) buf s = .ok (.more s', buf'))
      (more : Walks body v stack (nextCluster v stack cluster) buf' s' x) : Walks body v stack cluster buf s x

theorem Walks.settles (walks : Walks body v stack cluster buf s x) :
    ∃ n, ∀ fuel, n ≤ fuel → walkChain body v stack fuel cluster buf s = x := by
  induction walks with
  | ended invalid =>
    refine ⟨1, fun fuel enough => ?_⟩
    obtain ⟨fuel, rfl⟩ : ∃ k, fuel = k + 1 := ⟨fuel - 1, by omega⟩
    rw [walkChain, if_neg invalid]
    rfl
  | stops valid here =>
    refine ⟨1, fun fuel enough => ?_⟩
    obtain ⟨fuel, rfl⟩ : ∃ k, fuel = k + 1 := ⟨fuel - 1, by omega⟩
    rw [walkChain, if_pos valid, here]
    rfl
  | left valid here =>
    refine ⟨1, fun fuel enough => ?_⟩
    obtain ⟨fuel, rfl⟩ : ∃ k, fuel = k + 1 := ⟨fuel - 1, by omega⟩
    rw [walkChain, if_pos valid, here]
    rfl
  | next valid here more ih =>
    obtain ⟨n, later⟩ := ih
    refine ⟨n + 1, fun fuel enough => ?_⟩
    obtain ⟨fuel, rfl⟩ : ∃ k, fuel = k + 1 := ⟨fuel - 1, by omega⟩
    rw [walkChain, if_pos valid, here]
    exact later fuel (by omega)

theorem Walks.of_walkChain {fuel : Nat} (walked : walkChain body v stack fuel cluster buf s = x)
    (ends : x ≠ .error .diverges) : Walks body v stack cluster buf s x := by
  induction fuel generalizing cluster buf s with
  | zero => exact absurd walked.symm ends
  | succ fuel ih =>
    rw [walkChain] at walked
    by_cases valid : cluster < clusterEnd
    · rw [if_pos valid] at walked
      rcases here : walkSectors body v v.bpb.sectorsPerCluster.toNat (clusterToSector v cluster) buf s with
        stop | ⟨s' | r, buf'⟩ <;> rw [here] at walked
      · exact walked ▸ .stops valid here
      · exact .next valid here (ih walked)
      · exact walked ▸ .left valid here
    · rw [if_neg valid] at walked
      exact walked ▸ .ended valid

theorem Walks.ne (walks : Walks body v stack cluster buf s x) (finite : ∀ e s, body e s ≠ .error .diverges) :
    x ≠ .error .diverges := by
  have keeps : Keeps body (fun _ => True) (fun _ => True) (· ≠ .diverges) := by
    intro e s _
    cases done : body e s with
    | error stop => exact fun same => finite e s (by rw [done, same])
    | ok round => cases round <;> trivial
  induction walks with
  | ended invalid => exact fun same => by cases same
  | stops valid here =>
    intro same
    rw [same] at here
    exact (keeps.sectors v _ _ _ trivial).failed here rfl
  | left valid here => exact fun same => by cases same
  | next valid here more ih => exact ih

end Walk

section Open

variable {v : Volume}

theorem scanEntry_ends (comp : List Byte) (e : DirEntry) (st : LfnState) : scanEntry comp e st ≠ .error .diverges := by
  intro diverges
  rcases (scanEntry_meets comp e st).failed diverges with behind | ⟨_, outside, _⟩
  · cases behind
  · cases outside

theorem listEntry_ends (max : Int) (e : DirEntry) (l : Listing) : listEntry max e l ≠ .error .diverges := by
  intro diverges
  rcases (listEntry_meets max e l).failed diverges with ⟨full, _⟩ | ⟨_, outside, _⟩
  · cases full
  · cases outside

theorem splitComponent_ends (path : List Byte) : splitComponent path ≠ .error .diverges := by
  intro diverges
  cases path with
  | nil => cases diverges
  | cons c rest =>
    rw [splitComponent] at diverges
    split at diverges <;> cases diverges

/-- Each chain of clusters that is walked through for a path is left again: that of the directory at hand and, if there is
more of the path, those from the entry on that was found there. -/
def PathEnds (v : Volume) (stack : Sector) : Nat → List Byte → BitVec 32 → Sector → (Nat → Byte) → Prop
  | 0, _, _, _, _ => False
  | parts + 1, path, cluster, buf, nameBuf => ∀ comp after, splitComponent path = .ok (comp, after) →
    ∃ x, Walks (scanEntry comp) v stack cluster buf ⟨nameBuf, false⟩ x ∧
      ∀ e nameBuf' buf' rest, x = .ok (.left (some (e, nameBuf')), buf') → after = some rest →
        PathEnds v stack parts rest e.firstCluster buf' nameBuf'

theorem PathEnds.of_openFrom {stack : Sector} {fuel parts : Nat} {path : List Byte} {cluster : BitVec 32} {buf : Sector}
    {nameBuf : Nat → Byte} (returned : openFrom v stack fuel parts path cluster buf nameBuf ≠ .error .diverges) :
    PathEnds v stack parts path cluster buf nameBuf := by
  induction parts generalizing path cluster buf nameBuf with
  | zero => exact absurd rfl returned
  | succ parts ih =>
    intro comp after split
    rw [openFrom_walk, split, Outcome.ok_bind] at returned
    -- a walk that does not end would leave the whole call without an end
    have walked : walkChain (scanEntry comp) v stack fuel cluster buf ⟨nameBuf, false⟩ ≠ .error .diverges :=
      fun diverges => returned (by rw [diverges]; rfl)
    refine ⟨_, .of_walkChain rfl walked, fun e nameBuf' buf' rest found more => ih fun diverges => returned ?_⟩
    rw [found, more]
    exact diverges

theorem PathEnds.settles {stack : Sector} {parts : Nat} {path : List Byte} {cluster : BitVec 32} {buf : Sector}
    {nameBuf : Nat → Byte} (ends : PathEnds v stack parts path cluster buf nameBuf) :
    Settles fun fuel => openFrom v stack fuel parts path cluster buf nameBuf := by
  induction parts generalizing path cluster buf nameBuf with
  | zero => exact ends.elim
  | succ parts ih =>
    simp only [openFrom_walk]
    rcases split : splitComponent path with stop | ⟨comp, after⟩
    · exact .of_eq (x := .error stop)
        (fun diverges => splitComponent_ends path (split.trans (congrArg _ (Except.error.inj diverges)))) fun _ => rfl
    simp only [Outcome.ok_bind]
    obtain ⟨x, walks, follow⟩ := ends comp after split
    obtain ⟨n, settled⟩ := walks.settles
    refine Settles.bind (walks.ne (scanEntry_ends comp)) settled fun walked found => ?_
    subst found
    obtain ⟨st | (_ | ⟨e, nameBuf'⟩), buf'⟩ := walked
    · exact .ok fun _ => rfl
    · exact .ok fun _ => rfl
    · cases after with
      | none => exact .ok fun _ => rfl
      | some rest => exact ih (follow e nameBuf' buf' rest rfl rfl)

/-- The same from the root directory on. -/
def OpenEnds (v : Volume) (stack : Stack) (path : List Byte) : Prop :=
  path = [slash] ∨
    PathEnds v stack.buf (path.length + 1) (path.drop 1) v.bpb.rootCluster stack.entries stack.nameBuf

theorem OpenEnds.of_openPath {stack : Stack} {fuel : Nat} {path : List Byte}
    (returned : openPath v stack fuel path ≠ .error .diverges) : OpenEnds v stack path := by
  unfold openPath at returned
  by_cases root : path = [slash]
  · exact .inl root
  · rw [if_neg root] at returned
    exact .inr (.of_openFrom returned)

theorem openPath_settles_iff (stack : Stack) (path : List Byte) :
    (Settles fun fuel => openPath v stack fuel path) ↔ OpenEnds v stack path := by
  constructor
  · rintro ⟨n, r, ends, same⟩
    exact .of_openPath fun diverges => ends ((same n le_rfl).symm.trans diverges)
  · intro ends
    by_cases root : path = [slash]
    · exact .ok fun _ => if_pos root
    · simp only [openPath, if_neg root]
      exact (ends.resolve_left root).settles

theorem fat32Readdir_settles_iff (stack : Stack) (entries : Sector) (path : List Byte) (out : Nat → Dirent) (max : Int) :
    (Settles fun fuel => fat32Readdir v stack entries fuel path out max) ↔ OpenEnds v stack path ∧
      ∀ file, (∃ n, ∀ fuel, n ≤ fuel → openPath v stack fuel path = .ok (some file)) → file.isDir = true →
        ∃ x, Walks (listEntry max) v stack.buf file.firstCluster entries ⟨out, 0, false⟩ x := by
  constructor
  · rintro ⟨n, r, ends, same⟩
    refine ⟨.of_openPath fun (diverges : openPath v stack n path = _) => ends ?_, fun file ⟨n', opened⟩ isDir => ?_⟩
    · rw [← same n le_rfl]
      dsimp only [fat32Readdir]
      rw [diverges]
      rfl
    · refine ⟨walkChain (listEntry max) v stack.buf (n + n') file.firstCluster entries ⟨out, 0, false⟩,
        .of_walkChain rfl fun diverges => ends ?_⟩
      rw [← same (n + n') (by omega)]
      dsimp only [fat32Readdir]
      rw [opened (n + n') (by omega), Outcome.ok_bind]
      dsimp only
      rw [if_neg (by simp [isDir]), diverges]
      rfl
  · rintro ⟨opens, lists⟩
    obtain ⟨n, r, ends, same⟩ := (openPath_settles_iff stack path).mpr opens
    refine Settles.bind ends same fun opened found => ?_
    cases opened with
    | none => exact .ok fun _ => rfl
    | some file =>
      by_cases isDir : file.isDir = false
      · simp only [if_pos isDir]
        exact .ok fun _ => rfl
      · simp only [if_neg isDir]
        obtain ⟨x, walks⟩ := lists file ⟨n, fun fuel enough => (same fuel enough).trans found⟩ (by simpa using isDir)
        obtain ⟨n', settled⟩ := walks.settles
        refine Settles.bind (walks.ne (listEntry_ends max)) settled fun walked _ => ?_
        obtain ⟨round, _⟩ := walked
        cases round <;> exact .ok fun _ => rfl

end Open

section Read

variable {v : Volume} {stack : Sector} {count : BitVec 32}

theorem readLoop_settles_of_next {cluster done : BitVec 32} (tmp dst : Bytes)
    (later : done < count → ∀ next, next.toNat = done.toNat + min (count.toNat - done.toNat) (clusterSize v).toNat →
      ∀ tmp dst, Settles fun fuel => readLoop v stack count fuel (nextCluster v stack cluster) next tmp dst) :
    Settles fun fuel => readLoop v stack count fuel cluster done tmp dst := by
  refine .of_succ ?_
  by_cases more : cluster < clusterEnd ∧ done < count
  · simp only [readLoop, if_pos more]
    refine later more.2 _ ?_ _ _
    rw [BitVec.toNat_add, toNat_toCopy more.2]
    omega
  · exact .ok fun fuel => readLoop_end tmp dst more

theorem Ends.read {cluster : BitVec 32} (ends : Ends v stack cluster) (done : BitVec 32) (tmp dst : Bytes) :
    Settles fun fuel => readLoop v stack count fuel cluster done tmp dst := by
  induction ends generalizing done tmp dst with
  | ended invalid => exact .of_succ (.ok fun fuel => readLoop_end tmp dst fun both => invalid both.1)
  | next more ih => exact readLoop_settles_of_next tmp dst fun _ next _ tmp dst => ih next tmp dst

theorem readLoop_settles (sectors : v.bpb.sectorsPerCluster ≠ 0) (cluster done : BitVec 32) (tmp dst : Bytes) :
    Settles fun fuel => readLoop v stack count fuel cluster done tmp dst := by
  have pos : 0 < (clusterSize v).toNat := by
    have more : 0 < v.bpb.sectorsPerCluster.toNat := Nat.pos_of_ne_zero fun none => sectors (BitVec.eq_of_toNat_eq none)
    rw [toNat_clusterSize]
    omega
  induction missing : count.toNat - done.toNat using Nat.strongRecOn generalizing cluster done tmp dst with
  | ind missing ih =>
    refine readLoop_settles_of_next tmp dst fun wanted next copied tmp dst => ?_
    have below := BitVec.lt_def.mp wanted
    exact ih (count.toNat - next.toNat) (by omega) _ next tmp dst rfl

/-- With no sectors in a cluster nothing is read, and only the end of the chain ends the loop. -/
theorem readLoop_diverges (none : v.bpb.sectorsPerCluster = 0) (wanted : 0 < count) {cluster : BitVec 32}
    (endless : ¬Ends v stack cluster) (fuel : Nat) (tmp dst : Bytes) :
    readLoop v stack count fuel cluster 0 tmp dst = .error .diverges := by
  have size : clusterSize v = 0 := by
    rw [clusterSize, none]
    rfl
  induction fuel generalizing cluster tmp dst with
  | zero => rfl
  | succ fuel ih =>
    have valid : cluster < clusterEnd := by
      by_contra invalid
      exact endless (.ended invalid)
    have nothing : (if count - 0 < clusterSize v then count - 0 else clusterSize v) = 0 := by
      rw [size, if_neg (by simp)]
    rw [readLoop, if_pos ⟨valid, wanted⟩]
    simp only [nothing]
    exact ih (fun ends => endless (.next ends)) _ _

theorem read_settles_iff (tmp : Bytes) (file : Fat32File) (buf : Bytes) (count : BitVec 32) :
    (Settles fun fuel => read v stack tmp fuel file buf count) ↔
      Ends v stack file.firstCluster ∨ v.bpb.sectorsPerCluster ≠ 0 ∨ count = 0 := by
  constructor
  · rintro ⟨n, r, ends, same⟩
    by_contra! endless
    obtain ⟨endless, none, wanted⟩ := endless
    refine ends ((same n le_rfl).symm.trans (readLoop_diverges none ?_ endless n tmp buf))
    exact BitVec.lt_def.mpr (Nat.pos_of_ne_zero fun zero => wanted (BitVec.eq_of_toNat_eq zero))
  · rintro (ends | sectors | rfl)
    · exact ends.read 0 tmp buf
    · exact readLoop_settles sectors file.firstCluster 0 tmp buf
    · exact .of_succ (.ok fun fuel => readLoop_end tmp buf fun both => by simp at both)

end Read

/-- A volume with `sectors` sectors in a cluster, where the table has the root cluster behind itself and all entries are deleted. -/
def loopVolume (sectors : Byte) : Volume where
  bpb := ⟨sectors, 1, 1, 1, 2⟩
  lbaStart := 0
  disk lba := some fun i => if lba = 1 then (if i = 8 then 2 else 0) else 0xE5

theorem loopVolume_next (sectors : Byte) : nextCluster (loopVolume sectors) zeroStack.buf 2 = 2 := by
  have entry : uintAt ((loopVolume 0).blockRead 1 zeroStack.buf) 8 &&& 0x0FFFFFFF = 2 := by decide
  exact entry

theorem loopVolume_walk {σ ρ : Type} {body : DirEntry → σ → Outcome (Round σ ρ)} {s : σ}
    (skips : body (fun _ => 0xE5) s = .ok (.more s)) (fuel : Nat) (buf : Sector) :
    walkChain body (loopVolume 1) zeroStack.buf fuel 2 buf s = .error .diverges := by
  have entries : (loopVolume 1).entriesFrom 1 2 = List.replicate 16 fun _ => 0xE5 := rfl
  have walked : walkEntries body (List.replicate 16 fun _ => 0xE5) s = .ok (.more s) := by
    induction 16 with
    | zero => rfl
    | succ n ih =>
      rw [List.replicate_succ, walkEntries, skips, Outcome.ok_bind]
      exact ih
  induction fuel generalizing buf with
  | zero => rfl
  | succ fuel ih =>
    obtain ⟨buf', sectors⟩ := walkSectors_eq (v := loopVolume 1) (fun _ => rfl) body s 1 2 buf
    rw [entries, walked] at sectors
    have valid : (2 : BitVec 32) < clusterEnd := by decide
    have whole : walkSectors body (loopVolume 1) (loopVolume 1).bpb.sectorsPerCluster.toNat (clusterToSector (loopVolume 1) 2) buf s =
      .ok (.more s, buf') := sectors
    rw [walkChain, if_pos valid, whole, Outcome.ok_bind]
    rw [loopVolume_next]
    exact ih buf'

end Xos.Fs
