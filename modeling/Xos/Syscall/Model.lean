import Xos.Memory.VmmSpec
import Xos.Scheduler.Processes

/-!
# The memory system calls (`syscall.c`)

`SYS_ALLOC`, `SYS_FREE` and `SYS_ALLOC_SHARED`, as the current task makes them. The result of the
last one is stored through a pointer that the caller gives, in the address space of the caller. Every
frame is seen as a table at its address in the direct map, so a store that reaches a table changes it.
-/
namespace Xos.Syscall

open Memory Scheduler Word

/-- `PAGE_PRESENT | PAGE_WRITABLE | PAGE_USER`. -/
def userFlags : Nat := pagePresent ||| pageWritable ||| pageUser

/-- `(size + PAGE_SIZE - 1) / PAGE_SIZE`. -/
def pagesFor (size : Nat) : Nat := u64 (size + pageSize - 1) / pageSize

def withPmm (k : Kernel) (pmm : Pmm) : Kernel := { k with vmm := { k.vmm with pmm := pmm } }

def processCurrent (k : Kernel) : Outcome Nat := do
  pure (← k.task k.currentTask).owner

def mapAtHeapNext (k : Kernel) (p phys pages : Nat) : Outcome (Kernel × Nat) := do
  let process ← k.process p
  let vaddr := process.heapNext
  let vmm ← vmmMapPages k.vmm process.addressSpace vaddr phys pages userFlags
  let k ← { k with vmm := vmm }.updateProcess p fun process =>
    { process with heapNext := u64 (process.heapNext + u64 (pages * pageSize)) }
  pure (k, vaddr)

def sysAlloc (k : Kernel) (size : Nat) : Outcome (Kernel × Nat) := do
  if size = 0 then
    return (k, 0)
  let pages := pagesFor size
  let (pmm, phys) ← pmmAllocPages k.vmm.pmm pages
  let k := withPmm k pmm
  if phys = 0 then
    return (k, 0)
  mapAtHeapNext k (← processCurrent k) phys pages

def sysFree (k : Kernel) (vaddr size : Nat) : Outcome Kernel := do
  if vaddr = 0 ∨ size = 0 then
    return k
  let process ← k.process (← processCurrent k)
  let vmm ← vmmUnmapAndFreePages k.vmm process.addressSpace vaddr (pagesFor size)
  pure { k with vmm := vmm }

def setByte (word i byte : Nat) : Nat :=
  word % 2 ^ (8 * i) + byte * 2 ^ (8 * i) + word / 2 ^ (8 * i + 8) * 2 ^ (8 * i + 8)

theorem wordOf_lt (virt : Nat) : virt % 4096 / 8 < 512 := by
  omega

def storeByte (space : AddressSpace) (virt byte : Nat) (v : Vmm) : Outcome Vmm :=
  match v.frameAt space.pml4 virt with
  | none => throw (.panic "PAGE FAULT")
  | some frame =>
    let table := physToHhdm frame
    let index : Fin 512 := ⟨virt % 4096 / 8, wordOf_lt virt⟩
    pure (v.setEntry table index (setByte (v.tables table index) (virt % 8) byte))

/-- `*(ulong *)virt = value`. -/
def storeUlong (v : Vmm) (space : AddressSpace) (virt value : Nat) : Outcome Vmm :=
  Outcome.forRange (fun i => storeByte space (u64 (virt + i)) (value / 2 ^ (8 * i) % 256)) 8 0 v

/-- The conversion of an argument to `int`. -/
def toInt (arg : Nat) : Int := if u32 arg < 2 ^ 31 then u32 arg else (u32 arg : Int) - 2 ^ 32

/-- The process at the other end of the channel behind a handle, if the caller is its server, with 0
where the call gives up. -/
def sharedClient (k : Kernel) (process : Process) (handle : Nat) : Outcome Nat :=
  match handleGet process (toInt handle) with
  | none => pure 0
  | some entry => do
    if entry.ptr = 0 then
      return 0
    let channel ← k.channel entry.ptr
    if channel.pids serverEnd ≠ process.pid then
      return 0
    findProcess k (channel.pids clientEnd)

structure SharedViews where
  client : Nat
  vaddr : Nat
  clientVaddr : Nat
  deriving DecidableEq, Repr

/-- `SYS_ALLOC_SHARED` up to the store of the result. -/
def allocShared (k : Kernel) (size handle : Nat) : Outcome (Kernel × Option SharedViews) := do
  if size = 0 then
    return (k, none)
  let p ← processCurrent k
  let client ← sharedClient k (← k.process p) handle
  if client = 0 then
    return (k, none)
  let pages := pagesFor size
  let (pmm, phys) ← pmmAllocPages k.vmm.pmm pages
  let k := withPmm k pmm
  if phys = 0 then
    return (k, none)
  let (k, vaddr) ← mapAtHeapNext k p phys pages
  let (k, clientVaddr) ← mapAtHeapNext k client phys pages
  pure (k, some ⟨client, vaddr, clientVaddr⟩)

def sysAllocShared (k : Kernel) (size handle out : Nat) : Outcome (Kernel × Nat) := do
  let (k, views) ← allocShared k size handle
  match views with
  | none => return (k, 0)
  | some views =>
    let process ← k.process (← processCurrent k)
    let vmm ← storeUlong k.vmm process.addressSpace out views.clientVaddr
    pure ({ k with vmm := vmm }, views.vaddr)

end Xos.Syscall
