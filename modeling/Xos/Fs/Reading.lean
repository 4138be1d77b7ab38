import Xos.Fs.Lookup

/-!
# What `read` delivers

`read` goes through the whole chain of clusters of a file until it has `count` bytes. It delivers the
bytes of the chain, cut at `count`, and not at the size of the file.
-/
namespace Xos.Fs

open Lib (Bytes)

def Volume.bytesFrom (v : Volume) : Nat → BitVec 32 → List Byte
  | 0, _ => []
  | n + 1, lba => Bytes.slice (v.sector lba) 0 512 ++ v.bytesFrom n (lba + 1)

def Volume.chainBytes (v : Volume) (chain : List (BitVec 32)) : List Byte :=
  chain.flatMap fun cluster => v.bytesFrom v.bpb.sectorsPerCluster.toNat (clusterToSector v cluster)

/-- The clusters hold a file: it is empty and has none, or they are the chain from its first cluster on and have room for it. -/
inductive Stored (v : Volume) (file : Fat32File) : List (BitVec 32) → Prop
  | empty (first : file.firstCluster = 0) (size : file.size = 0) : Stored v file []
  | chain {clusters : List (BitVec 32)} (chained : Chain v file.firstCluster clusters)
      (room : file.size.toNat ≤ (v.chainBytes clusters).length) : Stored v file clusters

def Volume.contents (v : Volume) (file : Fat32File) (chain : List (BitVec 32)) : List Byte :=
  (v.chainBytes chain).take file.size.toNat

section Read

variable {v : Volume} {stack : Sector} {count : BitVec 32}

@[simp] theorem length_bytesFrom (n : Nat) (lba : BitVec 32) : (v.bytesFrom n lba).length = n * 512 := by
  induction n generalizing lba with
  | zero => simp [Volume.bytesFrom]
  | succ n ih =>
    simp [Volume.bytesFrom, ih]
    omega

theorem toNat_clusterSize (v : Volume) : (clusterSize v).toNat = v.bpb.sectorsPerCluster.toNat * 512 := by
  rw [clusterSize, BitVec.toNat_mul, BitVec.toNat_setWidth, show BitVec.toNat (512 : BitVec 32) = 512 from rfl]
  omega

theorem blockReads_eq (reads : ∀ lba, (v.disk lba).isSome) (n : Nat) (lba : BitVec 32) (tmp : Bytes) (i : Nat) :
    v.blockReads n lba tmp i = tmp.copy i (v.bytesFrom n lba) := by
  induction n generalizing lba tmp i with
  | zero => simp [Volume.blockReads, Volume.bytesFrom]
  | succ n ih =>
    obtain ⟨bytes, found⟩ := Option.isSome_iff_exists.mp (reads lba)
    have sector : v.sector lba = bytes := by simp [Volume.sector, Volume.blockRead, found]
    have behind := Bytes.copy_append tmp i (Bytes.slice bytes 0 512) (v.bytesFrom n (lba + 1))
    rw [Bytes.length_slice] at behind
    simp only [Volume.blockReads, found, Volume.bytesFrom, sector, ih, behind]

variable {fuel : Nat} {cluster done : BitVec 32}

theorem readLoop_end (tmp dst : Bytes) (ended : ¬(cluster < clusterEnd ∧ done < count)) :
    readLoop v stack count (fuel + 1) cluster done tmp dst = .ok (done, dst) := by
  rw [readLoop, if_neg ended]
  rfl

theorem toNat_toCopy (wanted : done < count) :
    (if count - done < clusterSize v then count - done else clusterSize v).toNat =
      min (count.toNat - done.toNat) (clusterSize v).toNat := by
  rw [← BitVec.toNat_sub_of_le (BitVec.le_of_lt wanted)]
  split
  next less => exact (Nat.min_eq_left (BitVec.lt_def.mp less).le).symm
  next more => exact (Nat.min_eq_right (Nat.le_of_not_lt fun less => more (BitVec.lt_def.mpr less))).symm

theorem readLoop_round (reads : ∀ lba, (v.disk lba).isSome) (stack : Sector) (fuel : Nat) (tmp dst : Bytes)
    (valid : cluster < clusterEnd) (wanted : done < count) :
    ∃ tmp' next, next.toNat = done.toNat + min (count.toNat - done.toNat) (v.chainBytes [cluster]).length ∧
      readLoop v stack count (fuel + 1) cluster done tmp dst =
        readLoop v stack count fuel (v.next cluster) next tmp'
          (dst.copy done.toNat ((v.chainBytes [cluster]).take (count.toNat - done.toNat))) := by
  have size := toNat_clusterSize v
  have length : (v.chainBytes [cluster]).length = (clusterSize v).toNat := by simp [Volume.chainBytes, size]
  have copied := toNat_toCopy (v := v) wanted
  have bounded := count.isLt
  -- the buffer holds the cluster, whatever was in it before
  rw [readLoop, if_pos ⟨valid, wanted⟩]
  rw [blockReads_eq reads, nextCluster_eq reads]
  refine ⟨_, _, ?_, congrArg _ (congrArg _ ?_)⟩
  · rw [BitVec.toNat_add, copied, length]
    omega
  · rw [copied, ← length, Bytes.slice_copy _ _ _ (by simp [Volume.chainBytes])]
    simp [Volume.chainBytes, List.take_eq_take_iff]

theorem chainBytes_cons (cluster : BitVec 32) (rest : List (BitVec 32)) :
    v.chainBytes (cluster :: rest) = v.chainBytes [cluster] ++ v.chainBytes rest := by
  simp [Volume.chainBytes]

/-- With `done` bytes in the buffer already, the loop adds the given bytes, up to the number that is still wanted. -/
def Delivers (count done : BitVec 32) (dst : Bytes) (bytes : List Byte) (result : Outcome (BitVec 32 × Bytes)) : Prop :=
  ∃ last, last.toNat = done.toNat + min (count.toNat - done.toNat) bytes.length ∧
    result = .ok (last, dst.copy done.toNat (bytes.take (count.toNat - done.toNat)))

theorem readLoop_full (tmp dst : Bytes) (full : ¬done < count) (bytes : List Byte) :
    Delivers count done dst bytes (readLoop v stack count (fuel + 1) cluster done tmp dst) := by
  have none : count.toNat - done.toNat = 0 := Nat.sub_eq_zero_of_le (Nat.le_of_not_lt fun less => full (BitVec.lt_def.mpr less))
  refine ⟨done, by simp [none], ?_⟩
  rw [readLoop_end tmp dst fun both => full both.2, none, List.take_zero, Bytes.copy_nil]

theorem Delivers.append {next : BitVec 32} {dst : Bytes} {front rear : List Byte} {res : Outcome (BitVec 32 × Bytes)}
    (copied : next.toNat = done.toNat + min (count.toNat - done.toNat) front.length)
    (rest : Delivers count next (dst.copy done.toNat (front.take (count.toNat - done.toNat))) rear res) :
    Delivers count done dst (front ++ rear) res := by
  obtain ⟨last, length, ret⟩ := rest
  have taken : next.toNat = done.toNat + (front.take (count.toNat - done.toNat)).length := by rw [copied, List.length_take]
  refine ⟨last, ?_, ?_⟩
  · rw [length, copied, List.length_append]
    omega
  · rw [ret, List.take_append, ← Bytes.copy_append, ← taken]
    by_cases whole : front.length ≤ count.toNat - done.toNat
    · rw [show count.toNat - done.toNat - front.length = count.toNat - next.toNat by omega]
    · -- the round copied all that was wanted
      rw [show count.toNat - next.toNat = 0 by omega, show count.toNat - done.toNat - front.length = 0 by omega]

theorem readLoop_chain (reads : ∀ lba, (v.disk lba).isSome) (stack : Sector) {chain : List (BitVec 32)}
    (chained : Chain v cluster chain) (enough : chain.length < fuel) (count done : BitVec 32) (tmp dst : Bytes) :
    Delivers count done dst (v.chainBytes chain) (readLoop v stack count fuel cluster done tmp dst) := by
  -- on the chain: one round for each cluster, unless all that was wanted is there before
  induction chained generalizing fuel done tmp dst with
  | @last cluster valid ends =>
    obtain ⟨fuel, rfl⟩ : ∃ k, fuel = k + 2 := ⟨fuel - 2, by simp at enough; omega⟩
    by_cases wanted : done < count
    · obtain ⟨tmp', next, copied, round⟩ := readLoop_round reads stack (fuel + 1) tmp dst valid wanted
      refine ⟨next, copied, ?_⟩
      rw [round, readLoop_end tmp' _ fun both => ends both.1]
    · exact readLoop_full tmp dst wanted _
  | @cons cluster rest valid more ih =>
    obtain ⟨fuel, rfl⟩ : ∃ k, fuel = k + 1 := ⟨fuel - 1, by omega⟩
    by_cases wanted : done < count
    · obtain ⟨tmp', next, copied, round⟩ := readLoop_round reads stack fuel tmp dst valid wanted
      rw [round, chainBytes_cons]
      exact .append copied (ih (by simpa using enough) next tmp' _)
    · exact readLoop_full tmp dst wanted _

theorem readLoop_grows (reads : ∀ lba, (v.disk lba).isSome) {last : BitVec 32} {tmp dst dst' : Bytes}
    (ret : readLoop v stack count fuel cluster done tmp dst = .ok (last, dst')) : done.toNat ≤ last.toNat := by
  induction fuel generalizing cluster done tmp dst with
  | zero => cases ret
  | succ fuel ih =>
    by_cases more : cluster < clusterEnd ∧ done < count
    · obtain ⟨tmp', next, copied, round⟩ := readLoop_round reads stack fuel tmp dst more.1 more.2
      rw [round] at ret
      have later := ih ret
      omega
    · rw [readLoop_end tmp dst more] at ret
      cases ret
      exact le_rfl

theorem toNat_zero : BitVec.toNat (0 : BitVec 32) = 0 := rfl

variable {file : Fat32File} {chain : List (BitVec 32)}

/-- The bytes of a chain and the contents of the file have the same beginning of `count` bytes exactly when no more than the
contents is wanted or there is nothing behind them. -/
theorem read_chain_iff (reads : ∀ lba, (v.disk lba).isSome) (chained : Chain v file.firstCluster chain)
    (room : file.size.toNat ≤ (v.chainBytes chain).length) (enough : chain.length < fuel) (stack : Sector) (tmp buf : Bytes) :
    read v stack tmp fuel file buf count =
        .ok (BitVec.ofNat 32 (min count.toNat file.size.toNat), buf.copy 0 ((v.contents file chain).take count.toNat)) ↔
      count.toNat ≤ file.size.toNat ∨ (v.chainBytes chain).length = file.size.toNat := by
  obtain ⟨last, length, ret⟩ := readLoop_chain reads stack chained enough count 0 tmp buf
  rw [toNat_zero, Nat.sub_zero] at length ret
  have small : min count.toNat file.size.toNat < 2 ^ 32 := Nat.lt_of_le_of_lt (Nat.min_le_left _ _) count.isLt
  rw [read, ret]
  constructor
  · intro same
    have lengths : last.toNat = min count.toNat file.size.toNat := by
      rw [(Outcome.ok_inj same).1, BitVec.toNat_ofNat, Nat.mod_eq_of_lt small]
    omega
  · intro cut
    have bytes : (v.contents file chain).take count.toNat = (v.chainBytes chain).take count.toNat := by
      rw [Volume.contents, List.take_take, List.take_eq_take_iff]
      omega
    have lengths : last = BitVec.ofNat 32 (min count.toNat file.size.toNat) := by
      apply BitVec.eq_of_toNat_eq
      rw [length, BitVec.toNat_ofNat, Nat.mod_eq_of_lt small]
      omega
    rw [bytes, lengths]

theorem read_empty (reads : ∀ lba, (v.disk lba).isSome) (sectors : v.bpb.sectorsPerCluster ≠ 0)
    (first : file.firstCluster = 0) {tmp buf buf' : Bytes}
    (ret : read v stack tmp (fuel + 1) file buf count = .ok (0, buf')) : count.toNat = 0 := by
  by_contra wanted
  have pos : (0 : BitVec 32) < count := BitVec.lt_def.mpr (Nat.pos_of_ne_zero wanted)
  have more : 0 < v.bpb.sectorsPerCluster.toNat := Nat.pos_of_ne_zero fun none => sectors (BitVec.eq_of_toNat_eq none)
  have wide : 0 < (v.chainBytes [0]).length := by simp [Volume.chainBytes, more]
  have valid : (0 : BitVec 32) < clusterEnd := by decide
  rw [read, first] at ret
  obtain ⟨tmp', next, copied, round⟩ := readLoop_round reads stack fuel tmp buf valid pos
  rw [round] at ret
  have later := readLoop_grows reads ret
  rw [toNat_zero] at later copied
  omega

/-- For a file that is stored on a volume with readable sectors, `read` returns the smaller one of `count` and the size and
delivers so many bytes of the contents exactly when no more than the size is wanted or the file fills its clusters. -/
theorem read_delivers_contents_iff (reads : ∀ lba, (v.disk lba).isSome) (sectors : v.bpb.sectorsPerCluster ≠ 0)
    (stored : Stored v file chain) (stack : Sector) (tmp buf : Bytes) (count : BitVec 32) :
    (∃ n, ∀ fuel, n ≤ fuel → read v stack tmp fuel file buf count =
        .ok (BitVec.ofNat 32 (min count.toNat file.size.toNat), buf.copy 0 ((v.contents file chain).take count.toNat))) ↔
      count.toNat ≤ file.size.toNat ∨ chain ≠ [] ∧ (v.chainBytes chain).length = file.size.toNat := by
  cases stored with
  | empty first size =>
    have none : v.contents file [] = [] := by simp [Volume.contents, Volume.chainBytes]
    have least : BitVec.ofNat 32 (min count.toNat (BitVec.toNat (0 : BitVec 32))) = 0 := by simp
    simp only [size, none, least, ne_eq, not_true_eq_false, false_and, or_false, List.take_nil, Bytes.copy_nil]
    constructor
    · rintro ⟨n, returns⟩
      exact Nat.le_of_eq (read_empty reads sectors first (returns (n + 1) (Nat.le_succ n)))
    · intro none
      have ended : ¬(file.firstCluster < clusterEnd ∧ 0 < count) := fun both => absurd (BitVec.lt_def.mp both.2) (Nat.not_lt.mpr none)
      refine ⟨1, fun fuel enough => ?_⟩
      obtain ⟨fuel, rfl⟩ : ∃ k, fuel = k + 1 := ⟨fuel - 1, by omega⟩
      exact readLoop_end tmp buf ended
  | chain chained room =>
    have nonempty : chain ≠ [] := by
      rintro rfl
      cases chained
    simp only [nonempty, ne_eq, not_false_eq_true, true_and]
    constructor
    · rintro ⟨n, returns⟩
      have enough : chain.length < max n (chain.length + 1) := by omega
      exact (read_chain_iff reads chained room enough stack tmp buf).mp (returns _ (Nat.le_max_left _ _))
    · intro cut
      exact ⟨chain.length + 1, fun fuel enough => (read_chain_iff reads chained room enough stack tmp buf).mpr cut⟩

end Read

theorem foobar_stored : Stored foobarVolume ⟨3, 5, false⟩ [3] ∧ Stored foobarVolume ⟨0, 0, false⟩ [] :=
  ⟨.chain (.last (by decide) (by decide)) (by simp [Volume.chainBytes, foobarVolume]), .empty rfl rfl⟩

/-- Ten bytes are delivered of a file with five, and of an empty one. -/
theorem read_beyond_size : Stored foobarVolume ⟨3, 5, false⟩ [3] ∧ Stored foobarVolume ⟨0, 0, false⟩ [] ∧
    (∃ buf, read foobarVolume (fun _ => 0) (fun _ => 0) 3 ⟨3, 5, false⟩ (fun _ => 0) 10 = .ok (10, buf)) ∧
    ∃ buf, read foobarVolume (fun _ => 0) (fun _ => 0) 3 ⟨0, 0, false⟩ (fun _ => 0) 10 = .ok (10, buf) :=
  ⟨foobar_stored.1, foobar_stored.2, ⟨_, rfl⟩, _, rfl⟩

/-- The first four bytes of the file are delivered. -/
theorem read_within_size : ∃ n, ∀ fuel, n ≤ fuel →
    read foobarVolume (fun _ => 0) (fun _ => 0) fuel ⟨3, 5, false⟩ (fun _ => 0) 4 =
      .ok (4, Bytes.copy (fun _ => 0) 0 ((foobarVolume.contents ⟨3, 5, false⟩ [3]).take 4)) :=
  (read_delivers_contents_iff (fun _ => rfl) (by decide) foobar_stored.1 (fun _ => 0) (fun _ => 0) (fun _ => 0) 4).mpr
    (.inl (by decide))

end Xos.Fs
