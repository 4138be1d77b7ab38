import Xos.Lib.Outcome
import Xos.Lib.Word

/-!
# The physical memory manager (`kernel/memory/pmm.c`)

One bit for each physical page: set when the page is in use. Allocation scans the
bitmap from a roving hint, `lastIndex`, to the end and then from the start to the hint.

An access to a byte at or past `bitmapSize` is undefined behaviour in the source; here it
stops with `outOfBounds`. The statistics fields that `pmm.c` declares and never uses
(`usable_memory`, `reserved_memory`) are left out.
-/
namespace Xos.Memory

open Word

/-- `pmm_state_t`. The bitmap is the memory `bitmapAddr` points to, byte by byte. -/
structure Pmm where
  totalMemory : Nat
  usedMemory : Nat
  pageCount : Nat
  bitmapAddr : Nat
  bitmap : Nat → BitVec 8
  bitmapSize : Nat
  lastIndex : Nat
  maxAddress : Nat

def addrToPage (addr : Nat) : Nat := addr >>> 12

def pageToAddr (page : Nat) : Nat := u64 (page <<< 12)

def Pmm.byte (s : Pmm) (index : Nat) : Outcome (BitVec 8) :=
  if index < s.bitmapSize then pure (s.bitmap index) else throw (.outOfBounds index)

def Pmm.setByte (s : Pmm) (index : Nat) (value : BitVec 8) : Pmm :=
  { s with bitmap := fun i => if i = index then value else s.bitmap i }

def bitmapSet (s : Pmm) (bit : Nat) : Outcome Pmm := do
  let byte ← s.byte (bit / 8)
  pure (s.setByte (bit / 8) (byte ||| (1#8 <<< (bit % 8))))

def bitmapClear (s : Pmm) (bit : Nat) : Outcome Pmm := do
  let byte ← s.byte (bit / 8)
  pure (s.setByte (bit / 8) (byte &&& ~~~(1#8 <<< (bit % 8))))

def bitmapTest (s : Pmm) (bit : Nat) : Outcome Bool := do
  let byte ← s.byte (bit / 8)
  pure ((byte >>> (bit % 8)) &&& 1#8 != 0#8)

def pmmReservePage (s : Pmm) (addr : Nat) : Outcome Pmm := do
  let page := addrToPage addr
  if ← bitmapTest s page then
    pure s
  else
    let s ← bitmapSet s page
    pure { s with usedMemory := u64 (s.usedMemory + 4096) }

def pmmUnreservePage (s : Pmm) (addr : Nat) : Outcome Pmm := do
  let page := addrToPage addr
  if ← bitmapTest s page then
    let s ← bitmapClear s page
    pure { s with usedMemory := sub64 s.usedMemory 4096 }
  else
    pure s

/-- The first clear bit among the `n` bits from `i` on: one pass of `pmm_alloc_page`. -/
def scanPage (s : Pmm) : Nat → Nat → Outcome (Option Nat)
  | 0, _ => pure none
  | n + 1, i => do
    if ← bitmapTest s i then scanPage s n (i + 1) else pure (some i)

/-- The body of both passes of `pmm_alloc_page` once a clear bit is found. -/
def takePage (s : Pmm) (i : Nat) : Outcome (Pmm × Nat) := do
  let s ← bitmapSet s i
  pure ({ s with usedMemory := u64 (s.usedMemory + 4096), lastIndex := u64 (i + 1) }, pageToAddr i)

def pmmAllocPage (s : Pmm) : Outcome (Pmm × Nat) := do
  match ← scanPage s (s.pageCount - s.lastIndex) s.lastIndex with
  | some i => takePage s i
  | none =>
    match ← scanPage s s.lastIndex 0 with
    | some i => takePage s i
    | none => throw (.panic "Out of memory!")

def pmmFreePage (s : Pmm) (addr : Nat) : Outcome Pmm := do
  let page := addrToPage addr
  if addr &&& 0xFFF ≠ 0 then
    throw (.panic "PMM free unaligned address")
  if page ≥ s.pageCount then
    throw (.panic "PMM free out of range")
  if !(← bitmapTest s page) then
    throw (.panic "PMM double free or freeing free page")
  let s ← bitmapClear s page
  let s := { s with usedMemory := sub64 s.usedMemory 4096 }
  if page < s.lastIndex then
    pure { s with lastIndex := page }
  else
    pure s

/-- One pass of `pmm_alloc_pages`: the first page of the first `count` consecutive clear bits
among the `n` bits from `i` on. The counter is a 32-bit `uint`. -/
def scanPages (s : Pmm) (count : Nat) : Nat → Nat → Nat → Nat → Outcome (Option Nat)
  | 0, _, _, _ => pure none
  | n + 1, i, currentCount, firstPage => do
    if ← bitmapTest s i then
      scanPages s count n (i + 1) 0 firstPage
    else
      let firstPage := if currentCount = 0 then i else firstPage
      let currentCount := u32 (currentCount + 1)
      if currentCount = count then
        pure (some firstPage)
      else
        scanPages s count n (i + 1) currentCount firstPage

/-- The loop that marks the `n` bits from `bit` on. -/
def bitmapSetRange (s : Pmm) (bit : Nat) : Nat → Outcome Pmm
  | 0 => pure s
  | n + 1 => do
    let s ← bitmapSet s bit
    bitmapSetRange s (bit + 1) n

/-- The body of both passes of `pmm_alloc_pages` once a run is found. `count * 4096` is a
product of two 32-bit operands. -/
def takePages (s : Pmm) (firstPage count : Nat) : Outcome (Pmm × Nat) := do
  let s ← bitmapSetRange s firstPage count
  pure ({ s with usedMemory := u64 (s.usedMemory + u32 (count * 4096)),
                 lastIndex := u64 (firstPage + count) }, pageToAddr firstPage)

/-- `pmm_alloc_pages`. The parameter is a `uint`, so a 64-bit argument is truncated. The second
pass starts with `current_count = 0`, so it never reads the `first_page` left by the first. -/
def pmmAllocPages (s : Pmm) (count : Nat) : Outcome (Pmm × Nat) := do
  let count := u32 count
  match ← scanPages s count (s.pageCount - s.lastIndex) s.lastIndex 0 0 with
  | some firstPage => takePages s firstPage count
  | none =>
    match ← scanPages s count s.lastIndex 0 0 0 with
    | some firstPage => takePages s firstPage count
    | none => throw (.panic "Out of memory!")

def pmmGetMaxAddress (s : Pmm) : Nat := s.maxAddress

structure MemInfo where
  total : Nat
  used : Nat
  free : Nat
  deriving DecidableEq, Repr

def pmmGetStats (s : Pmm) : MemInfo :=
  let total := u64 (s.pageCount * 4096)
  { total := total, used := s.usedMemory, free := sub64 total s.usedMemory }

end Xos.Memory
