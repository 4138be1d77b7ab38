import Xos.Memory.Heap
import Xos.Memory.PmmInit

/-!
# The virtual memory manager (`vmm.c`)

The kernel reads and writes page tables through the direct map of physical memory, so a table is
named by its pointer there. An index is nine bits of an address and always inside the table. The
`invlpg` and `mov cr3` instructions, the PAT register and the log lines are left out.
-/
namespace Xos.Memory

open Word Lib Function

def hhdmBase : Nat := 0xFFFF800000000000

def fbBase : Nat := 0xFFFF900000000000

def kernelBase : Nat := 0xFFFFFFFF80000000

def kernelStackTop : Nat := 0xFFFFC00000000000

def kernelStackPageCount : Nat := 0x400

def pagePresent : Nat := 1 <<< 0

def pageWritable : Nat := 1 <<< 1

def pageUser : Nat := 1 <<< 2

def pageWriteCombining : Nat := 1 <<< 7

def pageAddrMask : Nat := 0x000FFFFFFFFFF000

def physToHhdm (phys : Nat) : Nat := u64 (phys + hhdmBase)

def hhdmToPhys (pointer : Nat) : Nat := sub64 pointer hhdmBase

/-- `page_table`. -/
abbrev PageTable := Fin 512 → Nat

structure AddressSpace where
  pml4Phys : Nat
  pml4 : Nat
  deriving DecidableEq, Repr

/-- The memory behind table pointers, `g_kernel_address_space`, and the physical memory manager. -/
structure Vmm where
  pmm : Pmm
  tables : Nat → PageTable
  kernelSpace : AddressSpace

namespace Vmm

/-- `table->entries[index] = entry`. -/
def setEntry (v : Vmm) (table : Nat) (index : Fin 512) (entry : Nat) : Vmm :=
  { v with tables := update v.tables table (update (v.tables table) index entry) }

/-- `memset64(table, 0, 512)`. -/
def clearTable (v : Vmm) (table : Nat) : Vmm :=
  { v with tables := update v.tables table fun _ => 0 }

def allocTable (v : Vmm) : Outcome (Vmm × Nat) := do
  let (pmm, phys) ← pmmAllocPage v.pmm
  if phys = 0 then
    throw (.panic "Failed to allocate page table")
  let table := physToHhdm phys
  pure ({ v with pmm := pmm }.clearTable table, table)

def getOrCreate (v : Vmm) (table : Nat) (index : Fin 512) (flags : Nat) : Outcome (Vmm × Nat) := do
  let entry := v.tables table index
  if entry &&& pagePresent ≠ 0 then
    return (v, physToHhdm (entry &&& pageAddrMask))
  let (v, next) ← v.allocTable
  pure (v.setEntry table index
    ((hhdmToPhys next &&& pageAddrMask) ||| pagePresent ||| pageWritable ||| (flags &&& pageUser)), next)

/-- `get_table`, with 0 for a table that is not present. -/
def getTable (v : Vmm) (table : Nat) (index : Fin 512) : Nat :=
  let entry := v.tables table index
  if entry &&& pagePresent ≠ 0 then physToHhdm (entry &&& pageAddrMask) else 0

end Vmm

/-- `(virt >> shift) & 0x1FF`. -/
def tableIndex (shift virt : Nat) : Fin 512 :=
  ⟨(virt >>> shift) &&& 0x1FF, Nat.lt_succ_of_le Nat.and_le_right⟩

def pml4Index (virt : Nat) : Fin 512 := tableIndex 39 virt

def pdptIndex (virt : Nat) : Fin 512 := tableIndex 30 virt

def pdIndex (virt : Nat) : Fin 512 := tableIndex 21 virt

def ptIndex (virt : Nat) : Fin 512 := tableIndex 12 virt

/-- The body of the loop of `vmm_map_pages`. -/
def mapPage (space : AddressSpace) (flags virt phys : Nat) (v : Vmm) : Outcome Vmm := do
  let (v, pdpt) ← v.getOrCreate space.pml4 (pml4Index virt) flags
  let (v, pd) ← v.getOrCreate pdpt (pdptIndex virt) flags
  let (v, pt) ← v.getOrCreate pd (pdIndex virt) flags
  pure (v.setEntry pt (ptIndex virt) ((phys &&& pageAddrMask) ||| flags ||| pagePresent))

def vmmMapPages (v : Vmm) (space : AddressSpace) (virtualAddr physAddr pageCount flags : Nat) : Outcome Vmm :=
  Outcome.forRange
    (fun i => mapPage space flags (u64 (virtualAddr + u64 (i * pageSize))) (u64 (physAddr + u64 (i * pageSize))))
    pageCount 0 v

/-- The body of the loop of `vmm_unmap_and_free_pages`. -/
def unmapAndFreePage (space : AddressSpace) (virt : Nat) (v : Vmm) : Outcome Vmm := do
  let pdpt := v.getTable space.pml4 (pml4Index virt)
  if pdpt = 0 then
    return v
  let pd := v.getTable pdpt (pdptIndex virt)
  if pd = 0 then
    return v
  let pt := v.getTable pd (pdIndex virt)
  if pt = 0 then
    return v
  let pmm ← pmmFreePage v.pmm (v.tables pt (ptIndex virt) &&& pageAddrMask)
  pure ({ v with pmm := pmm }.setEntry pt (ptIndex virt) 0)

def vmmUnmapAndFreePages (v : Vmm) (space : AddressSpace) (virtualAddr pageCount : Nat) : Outcome Vmm :=
  Outcome.forRange (fun i => unmapAndFreePage space (u64 (virtualAddr + u64 (i * pageSize)))) pageCount 0 v

def vmmMapBytes (v : Vmm) (space : AddressSpace) (virtualAddr physAddr size flags : Nat) : Outcome Vmm :=
  vmmMapPages v space virtualAddr physAddr (u64 (size + pageSize - 1) / pageSize) flags

def vmmMapHhdm (v : Vmm) (space : AddressSpace) : Outcome Vmm :=
  vmmMapBytes v space hhdmBase 0 (pmmGetMaxAddress v.pmm) pageWritable

def vmmVirtToPhys (v : Vmm) (space : AddressSpace) (virt : Nat) : Nat :=
  let pdpt := v.getTable space.pml4 (pml4Index virt)
  if pdpt = 0 then 0 else
  let pd := v.getTable pdpt (pdptIndex virt)
  if pd = 0 then 0 else
  let pt := v.getTable pd (pdIndex virt)
  if pt = 0 then 0 else
  let entry := v.tables pt (ptIndex virt)
  if entry &&& pagePresent = 0 then 0 else (entry &&& pageAddrMask) ||| (virt &&& 0xFFF)

/-- The fields of `BootInfo` that `vmm_init` reads. -/
structure Framebuffer where
  base : Nat
  height : Nat
  pitch : Nat

def vmmMapKernelImage (v : Vmm) (space : AddressSpace) (kernel : KernelImage) : Outcome Vmm :=
  vmmMapBytes v space kernelBase kernel.physStart (sub64 kernel.physEnd kernel.physStart)
    (pagePresent ||| pageWritable)

def vmmMapLowIdentity (v : Vmm) (space : AddressSpace) : Outcome Vmm :=
  vmmMapBytes v space 0x00 0x00 4000000 (pagePresent ||| pageWritable)

/-- `vmm_map_framebuffer`. The size is a product of two 32-bit operands. -/
def vmmMapFramebuffer (v : Vmm) (space : AddressSpace) (fb : Framebuffer) : Outcome Vmm :=
  vmmMapBytes v space fbBase fb.base (u32 (fb.pitch * fb.height)) (pageWritable ||| pageWriteCombining)

def vmmSetupStack (v : Vmm) : Outcome (Vmm × Nat) := do
  let (pmm, physStackAddr) ← pmmAllocPages v.pmm kernelStackPageCount
  if physStackAddr = 0 then
    throw (.panic "Cannot allocate stack pages!")
  let virtStackBase := sub64 kernelStackTop (kernelStackPageCount * pageSize)
  let v ← vmmMapPages { v with pmm := pmm } v.kernelSpace virtStackBase physStackAddr kernelStackPageCount
    (pagePresent ||| pageWritable)
  pure (v, kernelStackTop)

/-- `vmm_init`, from what memory holds before it. -/
def vmmInit (pmm : Pmm) (memory : Nat → PageTable) (kernel : KernelImage) (fb : Framebuffer) : Outcome Vmm := do
  let (pmm, pml4Phys) ← pmmAllocPage pmm
  if pml4Phys = 0 then
    throw (.panic "Cannot allocate pml4 for kernel address space")
  let space : AddressSpace := ⟨pml4Phys, physToHhdm pml4Phys⟩
  let v : Vmm := { pmm := pmm, tables := memory, kernelSpace := space }
  let v := v.clearTable space.pml4
  let v ← vmmMapKernelImage v space kernel
  let v ← vmmMapFramebuffer v space fb
  let v ← vmmMapHhdm v space
  let v ← vmmMapLowIdentity v space
  let (v, _) ← vmmSetupStack v
  pure v

/-- The pages behind the kernel heap, as `heap.c` takes and maps them. The frames show what
`contents` finds in them. -/
def kernelPages (contents : Vmm → Nat → Bytes) : PageSource Vmm where
  mapPages v addr pageCount := do
    let (pmm, physAddr) ← pmmAllocPages v.pmm pageCount
    let v ← vmmMapPages { v with pmm := pmm } v.kernelSpace addr physAddr pageCount pageWritable
    pure (v, contents v physAddr)

/-- `sizeof(address_space)`. -/
def addressSpaceSize : Nat := 16

/-- The loop of `vmm_create_address_space` over the entries from 256 on. -/
def Vmm.copyKernelHalf (v : Vmm) (pml4 : Nat) : Vmm :=
  { v with tables := update v.tables pml4 fun i =>
      if 256 ≤ i.val then v.tables v.kernelSpace.pml4 i else v.tables pml4 i }

/-- `vmm_create_address_space` once it has a block of the heap for the two fields, which are returned
instead of being stored there. -/
def vmmCreateAddressSpaceOn (v : Vmm) : Outcome (Vmm × AddressSpace) := do
  let (pmm, pml4Phys) ← pmmAllocPage v.pmm
  let pml4 := physToHhdm pml4Phys
  pure (({ v with pmm := pmm }.clearTable pml4).copyKernelHalf pml4, ⟨pml4Phys, pml4⟩)

/-- `vmm_create_address_space`, with `none` for a null pointer. -/
def vmmCreateAddressSpace (contents : Vmm → Nat → Bytes) (h : Heap Vmm) :
    Outcome (Heap Vmm × Option AddressSpace) := do
  let (h, space) ← h.kmalloc (kernelPages contents) addressSpaceSize
  if space = 0 then
    return (h, none)
  let (v, space) ← vmmCreateAddressSpaceOn h.pages
  pure ({ h with pages := v }, some space)

end Xos.Memory
