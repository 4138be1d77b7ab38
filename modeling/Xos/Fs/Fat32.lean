import Mathlib.Logic.Function.Basic
import Xos.Lib.Bytes
import Xos.Lib.Outcome

/-!
# Opening, reading and listing files on a FAT32 volume (`fat32.c`)

`open` walks a path component by component. For each component it goes through the clusters of a
directory, their sectors, and the sixteen entries of each sector, and puts long names together in
`name_buf` on the way. A block read that fails leaves its buffer as it was;
what the buffers on the stack hold at first is an argument. The loops over clusters are cut off after a
number of rounds.
-/
namespace Xos.Fs

open Function

abbrev Byte := BitVec 8

abbrev Sector := Nat → Byte

def ushortAt (bytes : Nat → Byte) (i : Nat) : BitVec 16 := bytes (i + 1) ++ bytes i

def uintAt (bytes : Nat → Byte) (i : Nat) : BitVec 32 := bytes (i + 3) ++ bytes (i + 2) ++ bytes (i + 1) ++ bytes i

/-- The fields of `fat32_bpb` that are read. -/
structure Bpb where
  sectorsPerCluster : BitVec 8
  reservedSectors : BitVec 16
  fatCount : BitVec 8
  sectorsPerFat32 : BitVec 32
  rootCluster : BitVec 32

/-- `g_bpb`, `g_lba_start`, and what `g_block_read` finds at each address. -/
structure Volume where
  bpb : Bpb
  lbaStart : BitVec 32
  disk : BitVec 32 → Option Sector

/-- `g_block_read` of one sector into a buffer. -/
def Volume.blockRead (v : Volume) (lba : BitVec 32) (buf : Sector) : Sector := (v.disk lba).getD buf

/-- The 32 bytes of a `fat32_directory_entry`, or of a `fat32_lfn_entry`. -/
abbrev DirEntry := Nat → Byte

/-- `entries[j]`. -/
def entryAt (entries : Sector) (j : Nat) : DirEntry := fun k => entries (32 * j + k)

def attrVolume : Byte := 0x08

def attrDirectory : Byte := 0x10

def attrLfn : Byte := 0x0F

def lfnEntryLast : Byte := 0x40

def lfnSequenceMask : Byte := 0x1F

namespace DirEntry

def name (e : DirEntry) (k : Nat) : Byte := e k

def attributes (e : DirEntry) : Byte := e 11

def clusterHigh (e : DirEntry) : BitVec 16 := ushortAt e 20

def clusterLow (e : DirEntry) : BitVec 16 := ushortAt e 26

def size (e : DirEntry) : BitVec 32 := uintAt e 28

def sequenceNumber (e : DirEntry) : Byte := e 0

/-- `name_0`, `name_1` and `name_2`, one behind the other. -/
def lfnChar (e : DirEntry) (i : Nat) : BitVec 16 :=
  if i < 5 then ushortAt e (1 + 2 * i) else if i < 11 then ushortAt e (14 + 2 * (i - 5)) else ushortAt e (28 + 2 * (i - 11))

/-- `(((uint)cluster_high) << 0x10) | cluster_low`. -/
def firstCluster (e : DirEntry) : BitVec 32 := e.clusterHigh.setWidth 32 <<< 0x10 ||| e.clusterLow.setWidth 32

/-- `attributes & FAT32_ATTR_DIRECTORY`. -/
def isDir (e : DirEntry) : Bool := decide (e.attributes &&& attrDirectory ≠ 0)

end DirEntry

structure Fat32File where
  firstCluster : BitVec 32
  size : BitVec 32
  isDir : Bool
  deriving DecidableEq, Repr

def slash : Byte := 0x2F

def dot : Byte := 0x2E

def space : Byte := 0x20

def toUpper (c : Byte) : Byte := if 0x61 ≤ c ∧ c ≤ 0x7A then c - 0x20 else c

/-- A loop of `name_matches`: it puts characters into `padded` from index `i` on, up to a dot if `toDot` is set, and
gives up at the index `limit`. -/
def padPart (toDot : Bool) (limit : Nat) : List Byte → Nat → (Nat → Byte) → Option ((Nat → Byte) × List Byte)
  | [], _, padded => some (padded, [])
  | c :: rest, i, padded =>
    if toDot = true ∧ c = dot then some (padded, c :: rest)
    -- `return false`
    else if i ≥ limit then none
    else padPart toDot limit rest (i + 1) (update padded i (toUpper c))

/-- The comparison of `ubyte`s with `char`s, which are signed. -/
def samePadded (fatName padded : Nat → Byte) : Bool :=
  (List.range 11).all fun k => decide (((fatName k).toNat : Int) = (padded k).toInt)

def nameMatches (fatName : Nat → Byte) (component : List Byte) : Bool :=
  match padPart true 8 component 0 fun _ => space with
  | none => false
  | some (padded, []) => samePadded fatName padded
  | some (padded, _ :: extension) =>
    match padPart false 11 extension 8 padded with
    | none => false
    | some (padded, _) => samePadded fatName padded

def nameBufSize : Nat := 255

/-- `path_matches`, from index `i` on. -/
def pathMatches (nameBuf : Nat → Byte) : List Byte → Nat → Outcome Bool
  | [], _ => pure true
  | c :: rest, i =>
    -- `str2` is `name_buf`; `str1` is the path, which ends before it is read past its null byte
    if i ≥ nameBufSize then throw (.outOfBounds i)
    else if toUpper c ≠ toUpper (nameBuf i) then pure false
    else if c = 0 then pure true
    else pathMatches nameBuf rest (i + 1)

def clusterToSector (v : Volume) (cluster : BitVec 32) : BitVec 32 :=
  let dataStart := v.bpb.reservedSectors.setWidth 32 + v.bpb.fatCount.setWidth 32 * v.bpb.sectorsPerFat32
  v.lbaStart + dataStart + (cluster - 2) * v.bpb.sectorsPerCluster.setWidth 32

/-- `next_cluster`, with what its buffer holds at first. -/
def nextCluster (v : Volume) (stack : Sector) (cluster : BitVec 32) : BitVec 32 :=
  let lba := v.lbaStart + v.bpb.reservedSectors.setWidth 32 + cluster * 4 / 512
  let offset := cluster % 128 * 4
  uintAt (v.blockRead lba stack) offset.toNat &&& 0x0FFFFFFF

def clusterEnd : BitVec 32 := 0x0FFFFFF8

/-- What a round of a loop leads to: the next round, or out of the function. -/
inductive Round (σ ρ : Type) where
  | more (state : σ)
  | left (result : ρ)

def sectorEntries (entries : Sector) : List DirEntry := (List.range 16).map (entryAt entries)

section Walk

variable {σ ρ : Type} (body : DirEntry → σ → Outcome (Round σ ρ))

def walkEntries : List DirEntry → σ → Outcome (Round σ ρ)
  | [], s => pure (.more s)
  | e :: rest, s => do
    match ← body e s with
    | .more s => walkEntries rest s
    | .left r => pure (.left r)

/-- A loop over the sectors of a cluster around it, with the sectors that are left and the address of the next one. The
state is kept from one sector to the next. -/
def walkSectors (v : Volume) : Nat → BitVec 32 → Sector → σ → Outcome (Round σ ρ × Sector)
  | 0, _, entries, s => pure (.more s, entries)
  | n + 1, lba, entries, s => do
    match ← walkEntries body (sectorEntries (v.blockRead lba entries)) s with
    | .more s => walkSectors v n (lba + 1) (v.blockRead lba entries) s
    | .left r => pure (.left r, v.blockRead lba entries)

def walkChain (v : Volume) (stack : Sector) : Nat → BitVec 32 → Sector → σ → Outcome (Round σ ρ × Sector)
  | 0, _, _, _ => throw .diverges
  | fuel + 1, cluster, entries, s =>
    if cluster < clusterEnd then do
      match ← walkSectors body v v.bpb.sectorsPerCluster.toNat (clusterToSector v cluster) entries s with
      | (.more s, entries) => walkChain v stack fuel (nextCluster v stack cluster) entries s
      | (.left r, entries) => pure (.left r, entries)
    else pure (.more s, entries)

end Walk

/-- `name[seq * 13] = '\0'` in a name of `size` bytes, for the last piece of a name. -/
def endNameIn (size : Nat) (e : DirEntry) (name : Nat → Byte) (seq : Nat) : Outcome (Nat → Byte) :=
  if e.sequenceNumber &&& lfnEntryLast = 0 then pure name
  else if seq * 13 ≥ size then throw (.overwrites (seq * 13))
  else pure (update name (seq * 13) 0)

/-- `parse_lfn_name(lfn_entry, name + (seq - 1) * 13)` for a name of `size` bytes. -/
def parseLfnNameIn (size : Nat) (e : DirEntry) (name : Nat → Byte) (seq : Nat) : Outcome (Nat → Byte) :=
  if seq = 0 ∨ seq * 13 > size then throw (.overwrites (seq * 13))
  else pure fun i => if (seq - 1) * 13 ≤ i ∧ i < seq * 13 then (e.lfnChar (i - (seq - 1) * 13)).setWidth 8 else name i

/-- A piece of a long name is put into a name of `size` bytes. -/
def writePiece (size : Nat) (e : DirEntry) (name : Nat → Byte) : Outcome (Nat → Byte) := do
  let seq := (e.sequenceNumber &&& lfnSequenceMask).toNat
  let name ← endNameIn size e name seq
  parseLfnNameIn size e name seq

/-- `name_buf` and `has_lfn`. -/
structure LfnState where
  nameBuf : Nat → Byte
  hasLfn : Bool

/-- The entry that `open` has found for a component, with `name_buf` at that time. -/
abbrev Found := Option (DirEntry × (Nat → Byte))

/-- `has_lfn && path_matches(...)`. -/
def longMatches (component : List Byte) (st : LfnState) : Outcome Bool :=
  if st.hasLfn = true then pathMatches st.nameBuf component 0 else pure false

/-- The body of the three loops of `open`. -/
def scanEntry (component : List Byte) (e : DirEntry) (st : LfnState) : Outcome (Round LfnState Found) :=
  -- the last entry: the component is not there
  if e.name 0 = 0x00 then pure (.left none)
  -- a deleted entry
  else if e.name 0 = 0xE5 then pure (.more { st with hasLfn := false })
  -- a piece of a long name; a `seq` of 0 would write before `name_buf`
  else if e.attributes = attrLfn then do
    let nameBuf ← writePiece nameBufSize e st.nameBuf
    pure (.more ⟨nameBuf, true⟩)
  else if e.attributes &&& attrVolume ≠ 0 then pure (.more { st with hasLfn := false })
  else do
    -- `name_matches` is called only if the long name does not match, and has no effects
    let long ← longMatches component st
    -- `found_dir` leaves all three loops
    if long = true ∨ nameMatches e.name component = true then pure (.left (some (e, st.nameBuf)))
    else pure (.more { st with hasLfn := false })

/-- The component at `path_start` and, unless the path ends behind it, what follows the slash. The search for its end
begins behind the first character. -/
def splitComponent : List Byte → Outcome (List Byte × Option (List Byte))
  | [] => throw (.outOfBounds 1)
  | c :: rest =>
    match rest.dropWhile (· ≠ slash) with
    | [] => pure (c :: rest, none)
    | _ :: after => pure (c :: rest.takeWhile (· ≠ slash), some after)

/-- The loop over the components of a path. `none` is the return value 1. -/
def openFrom (v : Volume) (stack : Sector) (fuel : Nat) :
    Nat → List Byte → BitVec 32 → Sector → (Nat → Byte) → Outcome (Option Fat32File)
  | 0, _, _, _, _ => throw .diverges
  | parts + 1, path, cluster, entries, nameBuf => do
    let (component, after) ← splitComponent path
    match ← walkChain (scanEntry component) v stack fuel cluster entries ⟨nameBuf, false⟩ with
    | (.left (some (e, nameBuf)), entries) =>
      -- the entry is followed without a look at `FAT32_ATTR_DIRECTORY`
      match after with
      | none => pure (some ⟨e.firstCluster, e.size, e.isDir⟩)
      | some path => openFrom v stack fuel parts path e.firstCluster entries nameBuf
    | _ => pure none

/-- What the local arrays of `open` and `next_cluster` hold at first. -/
structure Stack where
  nameBuf : Nat → Byte
  entries : Sector
  buf : Sector

def zeroStack : Stack := ⟨fun _ => 0, fun _ => 0, fun _ => 0⟩

/-- `open`, for the bytes of a path before the null byte. The loop over clusters is cut off after `fuel` rounds. -/
def openPath (v : Volume) (stack : Stack) (fuel : Nat) (path : List Byte) : Outcome (Option Fat32File) :=
  if path = [slash] then pure (some ⟨v.bpb.rootCluster, 0, true⟩)
  else openFrom v stack.buf fuel (path.length + 1) (path.drop 1) v.bpb.rootCluster stack.entries stack.nameBuf

/-- `g_block_read` of several sectors to `tmp + i`. Each is stored behind the one before it, up to the first that cannot be
read. -/
def Volume.blockReads (v : Volume) : Nat → BitVec 32 → Lib.Bytes → Nat → Lib.Bytes
  | 0, _, tmp, _ => tmp
  | n + 1, lba, tmp, i =>
    match v.disk lba with
    -- the driver returns false, which `read` does not look at
    | none => tmp
    | some bytes => v.blockReads n (lba + 1) (tmp.copy i (Lib.Bytes.slice bytes 0 512)) (i + 512)

/-- `g_bpb.sectors_per_cluster * 512`. -/
def clusterSize (v : Volume) : BitVec 32 := v.bpb.sectorsPerCluster.setWidth 32 * 512

def readLoop (v : Volume) (stack : Sector) (count : BitVec 32) :
    Nat → BitVec 32 → BitVec 32 → Lib.Bytes → Lib.Bytes → Outcome (BitVec 32 × Lib.Bytes)
  | 0, _, _, _, _ => throw .diverges
  | fuel + 1, cluster, bytesRead, tmp, dst =>
    if cluster < clusterEnd ∧ bytesRead < count then
      let tmp := v.blockReads v.bpb.sectorsPerCluster.toNat (clusterToSector v cluster) tmp 0
      let remaining := count - bytesRead
      -- the size of the file is not looked at
      let toCopy := if remaining < clusterSize v then remaining else clusterSize v
      let dst := dst.copy bytesRead.toNat (tmp.slice 0 toCopy.toNat)
      readLoop v stack count fuel (nextCluster v stack cluster) (bytesRead + toCopy) tmp dst
    else pure (bytesRead, dst)

/-- `read`, with what the block `tmp` holds at first: the number of bytes, and what `buf` holds then. -/
def read (v : Volume) (stack : Sector) (tmp : Lib.Bytes) (fuel : Nat) (file : Fat32File) (buf : Lib.Bytes) (count : BitVec 32) :
    Outcome (BitVec 32 × Lib.Bytes) :=
  readLoop v stack count fuel file.firstCluster 0 tmp buf

def shortNameChars (e : DirEntry) : List Byte :=
  (List.range 11).flatMap fun k =>
    (if e.name k ≠ space then [e.name k] else []) ++ if k = 7 ∧ e.name 8 ≠ space then [dot] else []

/-- The size of `name` in a `file_dirent`. -/
def direntNameSize : Nat := 247

/-- `file_dirent`. -/
structure Dirent where
  name : Nat → Byte
  isDir : Bool
  fileSize : BitVec 64

/-- `out`, `count_read` and `has_lfn`. -/
structure Listing where
  out : Nat → Dirent
  countRead : Nat
  hasLfn : Bool

def listEntry (max : Int) (e : DirEntry) (l : Listing) : Outcome (Round Listing Listing) :=
  if e.name 0 = 0x00 then pure (.left l)
  -- a deleted entry: other than in `open`, `has_lfn` is kept
  else if e.name 0 = 0xE5 then pure (.more l)
  else if e.name 0 = dot then pure (.more l)
  -- from here on `out[count_read]` is written
  else if (l.countRead : Int) ≥ max then throw (.overwrites l.countRead)
  else if e.attributes = attrLfn then do
    let name ← writePiece direntNameSize e (l.out l.countRead).name
    pure (.more ⟨update l.out l.countRead { l.out l.countRead with name := name }, l.countRead, true⟩)
  else
    -- other than in `open`, a volume label is an entry like any other
    let name := if l.hasLfn = true then (l.out l.countRead).name
      else Lib.Bytes.copy (l.out l.countRead).name 0 (shortNameChars e ++ [0])
    let l : Listing := ⟨update l.out l.countRead ⟨name, e.isDir, e.size.setWidth 64⟩, l.countRead + 1, false⟩
    if (l.countRead : Int) = max then pure (.left l) else pure (.more l)

/-- `fat32_readdir`, with what its own array `entries` holds at first: what it returns, and the output entries. -/
def fat32Readdir (v : Volume) (stack : Stack) (entries : Sector) (fuel : Nat) (path : List Byte) (out : Nat → Dirent) (max : Int) :
    Outcome (Nat × (Nat → Dirent)) := do
  match ← openPath v stack fuel path with
  -- "Cannot resolve path"
  | none => pure (0, out)
  | some file =>
    -- "Not a directory"
    if file.isDir = false then pure (0, out)
    else do
      let (round, _) ← walkChain (listEntry max) v stack.buf fuel file.firstCluster entries ⟨out, 0, false⟩
      match round with
      | .more l => pure (l.countRead, l.out)
      | .left l => pure (l.countRead, l.out)

end Xos.Fs
