import Xos.Lib.Bytes
import Xos.Lib.Outcome
import Xos.Lib.Word

/-!
# The kernel heap (`heap.c`)

Headers live in the memory the heap manages: a block pointer is an address and a header field is
a load or a store at its offset. The pages behind the heap come from a page source, which stands
for `pmm_alloc_pages` followed by `vmm_map_pages` on the kernel address space.
-/
namespace Xos.Memory

open Word Lib

/-- Maps `count` fresh pages at a virtual address and returns the bytes found in them. -/
structure PageSource (σ : Type) where
  mapPages : σ → Nat → Nat → Outcome (σ × Bytes)

/-- `g_heap`, the kernel's memory, and the state of the page source. -/
structure Heap (σ : Type) where
  start : Nat
  heapEnd : Nat
  firstBlock : Nat
  mem : Bytes
  pages : σ

/-- The fields of `heap_block`. -/
inductive BlockField where
  | payloadSize
  | next
  | prev
  | free
  deriving DecidableEq, Repr

def BlockField.offset : BlockField → Nat
  | .payloadSize => 0
  | .next => 8
  | .prev => 16
  | .free => 24

def BlockField.width : BlockField → Nat
  | .free => 1
  | _ => 8

/-- `sizeof(heap_block)`. -/
def heapBlockSize : Nat := 32

def pageSize : Nat := 0x1000

def kernelHeap : Nat := 0xFFFFA00000000000

def heapInitialPages : Nat := 0x04

def heapExpandPages : Nat := 0x01

def alignUp (size : Nat) : Nat := sub64 (u64 (size + 0x10)) 1 / 0x10 * 0x10

def heapBlockMinSize : Nat := alignUp (heapBlockSize + 1)

def assertFailed : Stop := .panic "ASSERT FAILED"

variable {σ : Type}

namespace Heap

/-- `block->field`. -/
def get (h : Heap σ) (field : BlockField) (block : Nat) : Nat :=
  h.mem.load (block + field.offset) field.width

/-- `block->field = value`. -/
def set (h : Heap σ) (field : BlockField) (block value : Nat) : Heap σ :=
  { h with mem := h.mem.store (block + field.offset) field.width value }

/-- `HEAP_BLOCK_END`. -/
def blockEnd (h : Heap σ) (block : Nat) : Nat :=
  u64 (block + heapBlockSize + h.get .payloadSize block)

/-- The memory once `count` bytes at `addr` show the contents of fresh pages. The range may reach
past the last address and go on at 0. -/
def showPages (mem : Bytes) (addr count : Nat) (contents : Bytes) : Bytes := fun x =>
  if sub64 x addr < count then contents x else mem x

/-- `if (block) block->prev = prev`. -/
def linkBack (h : Heap σ) (block prev : Nat) : Heap σ :=
  if block ≠ 0 then h.set .prev block prev else h

def splitBlock (h : Heap σ) (block payloadSize : Nat) : Heap σ :=
  let oldSize := h.get .payloadSize block
  let h := h.set .payloadSize block payloadSize
  let nextBlock := h.blockEnd block
  let h := h.set .next nextBlock (h.get .next block)
  let h := h.linkBack (h.get .next nextBlock) nextBlock
  let h := h.set .prev nextBlock block
  let h := h.set .free nextBlock 1
  let h := h.set .payloadSize nextBlock (sub64 (sub64 oldSize payloadSize) heapBlockSize)
  h.set .next block nextBlock

/-- The loop of `find_last_block`. It does not change memory, so if it has not ended after as many
rounds as there are addresses it never ends. -/
def findLastBlockFrom (h : Heap σ) : Nat → Nat → Outcome Nat
  | 0, _ => throw .diverges
  | fuel + 1, block =>
    if h.get .next block = 0 then pure block else findLastBlockFrom h fuel (h.get .next block)

def findLastBlock (h : Heap σ) : Outcome Nat := findLastBlockFrom h (2 ^ 64) h.firstBlock

/-- The loop of `find_free_block`. -/
def findFreeBlockFrom (h : Heap σ) (minSize : Nat) : Nat → Nat → Outcome Nat
  | 0, _ => throw .diverges
  | fuel + 1, block =>
    if block = 0 then pure 0
    else if h.get .free block ≠ 0 ∧ h.get .payloadSize block ≥ minSize then pure block
    else findFreeBlockFrom h minSize fuel (h.get .next block)

def findFreeBlock (h : Heap σ) (minSize : Nat) : Outcome Nat :=
  findFreeBlockFrom h minSize (2 ^ 64) h.firstBlock

/-- The number of pages `expand_heap` asks for. -/
def expandPages (minSize : Nat) : Nat :=
  let minPages := sub64 (u64 (minSize + pageSize)) 1 / pageSize
  if heapExpandPages > minPages then heapExpandPages else minPages

/-- What `expand_heap` does to the list once `grown` bytes have been added behind it. -/
def extendList (h : Heap σ) (lastBlock grown : Nat) : Heap σ × Nat :=
  if h.get .free lastBlock ≠ 0 then
    (h.set .payloadSize lastBlock (u64 (h.get .payloadSize lastBlock + grown)), lastBlock)
  else
    let block := h.blockEnd lastBlock
    let h := h.set .free block 1
    let h := h.set .next block 0
    let h := h.set .prev block lastBlock
    let h := h.set .payloadSize block (sub64 grown heapBlockSize)
    (h.set .next lastBlock block, block)

def expandHeap (source : PageSource σ) (h : Heap σ) (minSize : Nat) : Outcome (Heap σ × Nat) := do
  let lastBlock ← h.findLastBlock
  if h.blockEnd lastBlock ≠ h.heapEnd then
    throw assertFailed
  let pageCount := expandPages minSize
  let (pages, contents) ← source.mapPages h.pages h.heapEnd pageCount
  let grown := u64 (pageCount * pageSize)
  let h := { h with mem := showPages h.mem h.heapEnd grown contents, pages := pages,
                    heapEnd := u64 (h.heapEnd + grown) }
  pure (h.extendList lastBlock grown)

/-- The end of `kmalloc`, once a block that is large enough is at hand. -/
def takeBlock (h : Heap σ) (freeBlock alignedSize : Nat) : Heap σ × Nat :=
  let h := if h.get .payloadSize freeBlock ≥ u64 (alignedSize + heapBlockMinSize) then
      h.splitBlock freeBlock alignedSize
    else h
  (h.set .free freeBlock 0, u64 (freeBlock + heapBlockSize))

def kmalloc (source : PageSource σ) (h : Heap σ) (size : Nat) : Outcome (Heap σ × Nat) := do
  if size = 0 then
    return (h, 0)
  let alignedSize := alignUp size
  let found ← h.findFreeBlock alignedSize
  let (h, freeBlock) ← if found = 0 then h.expandHeap source (u64 (heapBlockSize + alignedSize))
    else pure (h, found)
  if freeBlock = 0 then
    throw assertFailed
  if ¬h.get .payloadSize freeBlock ≥ alignedSize then
    throw assertFailed
  pure (h.takeBlock freeBlock alignedSize)

/-- The part of `kfree` that merges the block with the one behind it. -/
def coalesceNext (h : Heap σ) (block : Nat) : Heap σ :=
  if h.get .next block ≠ 0 ∧ h.get .free (h.get .next block) ≠ 0 then
    let h := h.set .payloadSize block
      (u64 (h.get .payloadSize block + (heapBlockSize + h.get .payloadSize (h.get .next block))))
    let h := h.set .next block (h.get .next (h.get .next block))
    h.linkBack (h.get .next block) block
  else h

/-- The part of `kfree` that merges the block into the one before it. -/
def coalescePrev (h : Heap σ) (block : Nat) : Heap σ :=
  if h.get .prev block ≠ 0 ∧ h.get .free (h.get .prev block) ≠ 0 then
    let h := h.set .payloadSize (h.get .prev block)
      (u64 (h.get .payloadSize (h.get .prev block) + (heapBlockSize + h.get .payloadSize block)))
    let h := h.set .next (h.get .prev block) (h.get .next block)
    h.linkBack (h.get .next block) (h.get .prev block)
  else h

@[irreducible] def kfree (h : Heap σ) (addr : Nat) : Heap σ :=
  let block := sub64 addr heapBlockSize
  let h := h.set .free block 1
  let h := h.coalesceNext block
  h.coalescePrev block

end Heap

def heapInit (source : PageSource σ) (pages : σ) (mem : Bytes) : Outcome (Heap σ) := do
  let (pages, contents) ← source.mapPages pages kernelHeap heapInitialPages
  let heapStart := kernelHeap
  let heapEnd := u64 (kernelHeap + u64 (pageSize * heapInitialPages))
  let h : Heap σ :=
    { start := heapStart
      heapEnd := heapEnd
      firstBlock := heapStart
      mem := Heap.showPages mem heapStart (pageSize * heapInitialPages) contents
      pages := pages }
  let h := h.set .payloadSize h.firstBlock (sub64 (sub64 heapEnd heapStart) heapBlockSize)
  let h := h.set .free h.firstBlock 1
  let h := h.set .next h.firstBlock 0
  pure (h.set .prev h.firstBlock 0)

end Xos.Memory
