import Xos.Memory.Pmm

/-!
# Start-up of the physical memory manager (`pmm_init`)

The memory map is the list of EFI descriptors in the order of the boot loader's buffer. Of a
descriptor only the fields `pmm_init` reads are kept. The linker symbols that delimit the
kernel image are a parameter.
-/
namespace Xos.Memory

open Word

/-- `EfiMemoryDescriptor`, without the fields the kernel never reads. A descriptor describes
physical memory, whose addresses have at most 52 bits (`PAGE_ADDR_MASK`). -/
structure EfiMemoryDescriptor where
  type : Nat
  physicalStart : Nat
  numberOfPages : Nat
  physical : physicalStart + numberOfPages * 4096 ≤ 2 ^ 52
  deriving DecidableEq

/-- `__kernel_phys_start` and `__kernel_phys_end`. `linker.ld` links the image in the top 2 GiB
of the address space, so it is smaller than that. -/
structure KernelImage where
  physStart : Nat
  physEnd : Nat
  ordered : physStart ≤ physEnd
  small : physEnd - physStart < 2 ^ 31
  bound : physEnd < 2 ^ 64

def conventionalType : Nat := 7

/-- The page of the last byte-page of a descriptor, as the first loop of `pmm_init` computes it. -/
def EfiMemoryDescriptor.lastPage (desc : EfiMemoryDescriptor) : Nat :=
  addrToPage (u64 (desc.physicalStart + u64 ((desc.numberOfPages - 1) * 4096)))

/-- The first loop of `pmm_init`. -/
def maxPage (map : List EfiMemoryDescriptor) : Nat :=
  map.foldl (fun maxPage desc =>
    if desc.type = conventionalType ∧ desc.numberOfPages > 0 then
      if desc.lastPage > maxPage then desc.lastPage else maxPage
    else maxPage) 0

def findBitmap (bitmapSize : Nat) (map : List EfiMemoryDescriptor) : Option Nat :=
  (map.find? fun desc => desc.type = conventionalType ∧ desc.physicalStart ≠ 0 ∧
    u64 (desc.numberOfPages * 4096) ≥ bitmapSize).map EfiMemoryDescriptor.physicalStart

/-- The inner loop that clears the bits of one descriptor, from its `i`-th page on. -/
def unreservePages (s : Pmm) (start : Nat) : Nat → Nat → Outcome Pmm
  | 0, _ => pure s
  | n + 1, i => do
    let addr := u64 (start + u64 (i * 4096))
    let s ← pmmUnreservePage s addr
    unreservePages { s with maxAddress := addr, totalMemory := u64 (s.totalMemory + 4096) } start n (i + 1)

def unreserveMap (s : Pmm) : List EfiMemoryDescriptor → Outcome Pmm
  | [] => pure s
  | desc :: rest => do
    let s ← if desc.type = conventionalType then
        unreservePages s desc.physicalStart desc.numberOfPages 0
      else pure s
    unreserveMap s rest

def reservePages (s : Pmm) (start : Nat) : Nat → Nat → Outcome Pmm
  | 0, _ => pure s
  | n + 1, i => do
    let s ← pmmReservePage s (u64 (start + u64 (i * 4096)))
    reservePages s start n (i + 1)

def regionStart (addr : Nat) : Nat := addr &&& 0xFFFFFFFFFFFFF000

/-- The size is an `int`: it is sign-extended before the addition. -/
def regionEnd (addr : Nat) (size : Int) : Nat :=
  u64 (u64 (addr + sext64 size) + 0xFFF) &&& 0xFFFFFFFFFFFFF000

def regionPages (addr : Nat) (size : Int) : Nat :=
  sub64 (regionEnd addr size) (regionStart addr) / 4096

def pmmReserveRegion (s : Pmm) (addr : Nat) (size : Int) : Outcome Pmm :=
  reservePages s (regionStart addr) (regionPages addr size) 0

/-- The state before the bits are adjusted: `memset8` has set every bit of the bitmap. -/
def blankPmm (pageCount bitmapSize bitmapAddr : Nat) : Pmm where
  totalMemory := 0
  usedMemory := u64 (pageCount * 4096)
  pageCount := pageCount
  bitmapAddr := bitmapAddr
  bitmap := fun i => if i < bitmapSize then 0xFF#8 else 0#8
  bitmapSize := bitmapSize
  lastIndex := 0
  maxAddress := 0

/-- `pmm_init`, without its console output. -/
def pmmInit (map : List EfiMemoryDescriptor) (kernel : KernelImage) : Outcome Pmm := do
  let pageCount := u64 (maxPage map + 1)
  let bitmapSize := u64 (pageCount + 7) / 8
  match findBitmap bitmapSize map with
  | none => throw (.panic "PMM: failed to find space for bitmap")
  | some bitmapAddr =>
    let s ← unreserveMap (blankPmm pageCount bitmapSize bitmapAddr) map
    let s ← pmmReservePage s 0
    let s ← pmmReserveRegion s bitmapAddr (i32 bitmapSize)
    pmmReserveRegion s kernel.physStart (i32 (sub64 kernel.physEnd kernel.physStart))

end Xos.Memory
