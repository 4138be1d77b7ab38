import Mathlib.Data.Set.Basic
import Xos.Fs.Names

/-!
# Directories of a FAT32 volume

The entries of a directory stand for a list of items, each with its entry and perhaps a long name in pieces right before
it, the last piece first.
-/
namespace Xos.Fs

/-- An entry that is no volume label, with its long name if it has one. -/
structure DirItem where
  long : Option (List (BitVec 16))
  entry : DirEntry

def DirItem.named (item : DirItem) (component : List Byte) : Bool :=
  (item.long.any fun name => decide (SameName component (name.map BitVec.toNat))) ||
    decide (SameName component (item.entry.shortName.map BitVec.toNat))

/-- What `open` is to report of an item. -/
def DirItem.file (item : DirItem) : Fat32File := ⟨item.entry.firstCluster, item.entry.size, item.entry.isDir⟩

structure DirEntry.Plain (e : DirEntry) : Prop where
  nonzero : e.name 0 ≠ 0x00
  live : e.name 0 ≠ 0xE5
  notLfn : e.attributes ≠ attrLfn
  notVolume : e.attributes &&& attrVolume = 0

/-- The code units of a long name in `n` pieces of 13: a name that does not fill them ends with a zero, and the rest is `0xFFFF`. -/
def paddedUnits (name : List (BitVec 16)) (n : Nat) : List (BitVec 16) :=
  name ++ if name.length < 13 * n then 0 :: List.replicate (13 * n - name.length - 1) 0xFFFF else []

/-- The entry holds piece number `k`, counted from 1, of `last` pieces. -/
structure LfnPiece (units : List (BitVec 16)) (last k : Nat) (e : DirEntry) : Prop where
  attributes : e.attributes = attrLfn
  sequence : e.sequenceNumber = BitVec.ofNat 8 (if k = last then k + 0x40 else k)
  chars : ∀ i, i < 13 → e.lfnChar i = units.getD (13 * (k - 1) + i) 0

/-- The entries hold the pieces from `k` down to 1. -/
inductive LfnPieces (units : List (BitVec 16)) (last : Nat) : Nat → List DirEntry → Prop
  | nil : LfnPieces units last 0 []
  | cons {k : Nat} {e : DirEntry} {rest : List DirEntry} (piece : LfnPiece units last (k + 1) e)
      (pieces : LfnPieces units last k rest) : LfnPieces units last (k + 1) (e :: rest)

def pieceCount (name : List (BitVec 16)) : Nat := (name.length + 12) / 13

structure LongName (name : List (BitVec 16)) (entries : List DirEntry) : Prop where
  nonempty : name ≠ []
  short : name.length ≤ 255
  pieces : LfnPieces (paddedUnits name (pieceCount name)) (pieceCount name) (pieceCount name) entries

/-- The entries list the items. An entry that begins with a zero ends the list, and what is behind it does not count. -/
inductive Lists : List DirEntry → List DirItem → Prop
  | nil : Lists [] []
  | stop {e : DirEntry} {rest : List DirEntry} (zero : e.name 0 = 0x00) : Lists (e :: rest) []
  | deleted {e : DirEntry} {rest : List DirEntry} {items : List DirItem} (mark : e.name 0 = 0xE5)
      (more : Lists rest items) : Lists (e :: rest) items
  | volume {e : DirEntry} {rest : List DirEntry} {items : List DirItem} (nonzero : e.name 0 ≠ 0x00) (live : e.name 0 ≠ 0xE5)
      (notLfn : e.attributes ≠ attrLfn) (label : e.attributes &&& attrVolume ≠ 0) (more : Lists rest items) :
      Lists (e :: rest) items
  | short {e : DirEntry} {rest : List DirEntry} {items : List DirItem} (plain : e.Plain) (more : Lists rest items) :
      Lists (e :: rest) (⟨none, e⟩ :: items)
  | long {e : DirEntry} {name : List (BitVec 16)} {pieces rest : List DirEntry} {items : List DirItem}
      (holds : LongName name pieces) (plain : e.Plain) (notDot : e.name 0 ≠ dot) (more : Lists rest items) :
      Lists (pieces ++ e :: rest) (⟨some name, e⟩ :: items)

def Volume.sector (v : Volume) (lba : BitVec 32) : Sector := v.blockRead lba fun _ => 0

def Volume.next (v : Volume) (cluster : BitVec 32) : BitVec 32 := nextCluster v (fun _ => 0) cluster

def Volume.entriesFrom (v : Volume) : Nat → BitVec 32 → List DirEntry
  | 0, _ => []
  | n + 1, lba => sectorEntries (v.sector lba) ++ v.entriesFrom n (lba + 1)

def Volume.entries (v : Volume) (chain : List (BitVec 32)) : List DirEntry :=
  chain.flatMap fun cluster => v.entriesFrom v.bpb.sectorsPerCluster.toNat (clusterToSector v cluster)

inductive Chain (v : Volume) : BitVec 32 → List (BitVec 32) → Prop
  | last {cluster : BitVec 32} (valid : cluster < clusterEnd) (ends : ¬v.next cluster < clusterEnd) : Chain v cluster [cluster]
  | cons {cluster : BitVec 32} {rest : List (BitVec 32)} (valid : cluster < clusterEnd) (more : Chain v (v.next cluster) rest) :
      Chain v cluster (cluster :: rest)

/-- All sectors can be read; `dirs` are the first clusters of the directories, the root directory among them; each is a chain
that ends and lists its items, and what is a directory among these, but for the entries `.` and `..`, is one of `dirs`. -/
structure WellFormed (v : Volume) (dirs : Set (BitVec 32)) (items : BitVec 32 → List DirItem) : Prop where
  reads : ∀ lba, (v.disk lba).isSome
  root : v.bpb.rootCluster ∈ dirs
  lists : ∀ cluster ∈ dirs, ∃ chain, Chain v cluster chain ∧ Lists (v.entries chain) (items cluster)
  children : ∀ cluster ∈ dirs, ∀ item ∈ items cluster, item.entry.isDir = true → item.entry.name 0 ≠ dot →
    item.entry.firstCluster ∈ dirs

structure Component (component : List Byte) : Prop where
  nonempty : component ≠ []
  noSlash : slash ∉ component
  nonzero : ∀ c ∈ component, c ≠ 0

def pathOf (components : List (List Byte)) : List Byte :=
  if components = [] then [slash] else components.flatMap (slash :: ·)

/-- The item that a path leads to: each component is a name in the directory reached so far, and each but the last is the
name of a directory. -/
def resolve (items : BitVec 32 → List DirItem) : List (List Byte) → BitVec 32 → Option DirItem
  | [], _ => none
  | component :: rest, cluster =>
    ((items cluster).find? (·.named component)).bind fun item =>
      if rest = [] then some item
      else if item.entry.isDir = true then resolve items rest item.entry.firstCluster
      else none

/-- What `open` is to report for a path. -/
def lookup (v : Volume) (items : BitVec 32 → List DirItem) (components : List (List Byte)) : Option Fat32File :=
  if components = [] then some ⟨v.bpb.rootCluster, 0, true⟩
  else (resolve items components v.bpb.rootCluster).map DirItem.file

end Xos.Fs
