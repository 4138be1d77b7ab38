import Xos.Memory.Vmm

/-!
# Programs (`elf.c`)

`elf_load` copies the segments of a program from a file to frames that it allocates, and maps the frames
into the address space of the program. Physical memory is reached through the direct map, so a pointer
`PHYS_TO_HHDM(phys) + i` is the byte `phys + i` here. The block of the heap that holds the file
while it is loaded is there, and log lines are left out.
-/
namespace Xos.Exec

open Memory Word
open Lib (Bytes)

abbrev Byte := BitVec 8

/-- A file that is open: its size, and what `file_read` of a number of bytes stores in a buffer. -/
structure FileView where
  size : Nat
  read : Nat → Outcome Bytes

structure Ram where
  vmm : Vmm
  bytes : Bytes

/-- The fields of an `elf_header` that are used. -/
structure ElfHeader where
  programEntry : Nat
  programOffset : Nat
  programEntrySize : Nat
  programEntryCount : Nat

/-- The fields of an `elf_program_header` of a segment that is to be loaded. -/
structure ElfProgramHeader where
  flags : Nat
  offset : Nat
  vaddr : Nat
  sizeFile : Nat
  sizeMem : Nat
  deriving DecidableEq

/-- `sizeof(elf_header)`. -/
def elfHeaderSize : Nat := 64

/-- `0x464c457f`, the four bytes that a program starts with. -/
def elfMagic : Nat := 0x464c457f

def elfHeader (data : Bytes) : ElfHeader where
  programEntry := data.load 24 8
  programOffset := data.load 32 8
  programEntrySize := data.load 54 2
  programEntryCount := data.load 56 2

/-- `hdr->program_offset + i * hdr->program_entry_size`. The product is an `int`. -/
def programHeaderOffset (hdr : ElfHeader) (i : Nat) : Nat :=
  u64 (hdr.programOffset + sext64 (i32 (i * hdr.programEntrySize)))

/-- The program header at an offset of a file of `size` bytes, or `none` for a type other than `PT_LOAD`. Only the type is read of
such a header. -/
def programHeader (size : Nat) (data : Bytes) (offset : Nat) : Outcome (Option ElfProgramHeader) :=
  if size < offset + 4 then throw (.outOfBounds offset)
  else if data.load offset 4 ≠ 1 then pure none
  -- `size_mem` is the last field that is used
  else if size < offset + 48 then throw (.outOfBounds offset)
  else pure (some
    { flags := data.load (offset + 4) 4
      offset := data.load (offset + 8) 8
      vaddr := data.load (offset + 16) 8
      sizeFile := data.load (offset + 32) 8
      sizeMem := data.load (offset + 40) 8 })

/-- `pages`, a `uint`. -/
def ElfProgramHeader.pages (ph : ElfProgramHeader) : Nat := u32 (u64 (ph.sizeMem + 4095) / 4096)

def ElfProgramHeader.pageFlags (ph : ElfProgramHeader) : Nat :=
  if ph.flags &&& 2 ≠ 0 then pagePresent ||| pageUser ||| pageWritable else pagePresent ||| pageUser

/-- `memcpy8(dest, data + offset, size_file)` to the frames at `phys`. -/
def copyFile (size : Nat) (data : Bytes) (ph : ElfProgramHeader) (phys : Nat) (bytes : Bytes) : Outcome Bytes :=
  -- a byte behind the file, and a byte behind the frames
  if 0 < ph.sizeFile ∧ size < ph.offset + ph.sizeFile then throw (.outOfBounds ph.offset)
  else if ph.pages * 4096 < ph.sizeFile then throw (.outOfBounds phys)
  else pure (bytes.copy phys (data.slice ph.offset ph.sizeFile))

/-- `memset8(dest + size_file, 0, size_mem - size_file)` in the frames at `phys`. -/
def clearRest (ph : ElfProgramHeader) (phys : Nat) (bytes : Bytes) : Outcome Bytes :=
  let rest := sub64 ph.sizeMem ph.sizeFile
  if 0 < rest ∧ ph.pages * 4096 < ph.sizeFile + rest then throw (.outOfBounds phys)
  else pure (bytes.copy (phys + ph.sizeFile) (List.replicate rest 0))

/-- What the loop of `elf_load` does with a segment. -/
def loadSegment (space : AddressSpace) (size : Nat) (data : Bytes) (ph : ElfProgramHeader) (m : Ram) : Outcome Ram := do
  let (pmm, physAddr) ← pmmAllocPages m.vmm.pmm ph.pages
  let vmm ← vmmMapPages { m.vmm with pmm := pmm } space ph.vaddr physAddr ph.pages ph.pageFlags
  let bytes ← copyFile size data ph physAddr m.bytes
  let bytes ← clearRest ph physAddr bytes
  pure ⟨vmm, bytes⟩

def loadIfSegment (space : AddressSpace) (size : Nat) (data : Bytes) (m : Ram) : Option ElfProgramHeader → Outcome Ram
  | none => pure m
  | some ph => loadSegment space size data ph m

/-- The body of the loop of `elf_load`. -/
def loadEntry (space : AddressSpace) (size : Nat) (data : Bytes) (i : Nat) (m : Ram) : Outcome Ram := do
  let header ← programHeader size data (programHeaderOffset (elfHeader data) i)
  loadIfSegment space size data m header

def loadEntries (space : AddressSpace) (size : Nat) (data : Bytes) (m : Ram) : Outcome Ram :=
  Outcome.forRange (loadEntry space size data) (elfHeader data).programEntryCount 0 m

/-- `elf_load`, which returns the entry of the program or 0. -/
def elfLoad (m : Ram) (file : FileView) (space : AddressSpace) : Outcome (Ram × Nat) :=
  if file.size < elfHeaderSize then pure (m, 0)
  else do
    let magic ← file.read 4
    if magic.load 0 4 ≠ elfMagic then pure (m, 0)
    else
      let data ← file.read file.size
      if data 0 ≠ 0x7F ∨ data 1 ≠ 0x45 then pure (m, 0)
      else
        let m ← loadEntries space file.size data m
        pure (m, (elfHeader data).programEntry)

end Xos.Exec
