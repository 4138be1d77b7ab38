import Xos.Memory.Vmm

/-!
# What the network driver tells its device (`e1000.c`)

The driver allocates its rings and buffers with `kmalloc`, translates the address of their first byte
and gives the device that address. Registers, the fields of descriptors other than the address, and
the waiting for a free descriptor are left out.
-/
namespace Xos.Io

open Memory Lib

def txDescCount : Nat := 8

def rxDescCount : Nat := 64

def rxBufferSize : Nat := 2048

/-- `sizeof(tx_desc)`. -/
def txDescSize : Nat := 16

/-- `sizeof(rx_desc)`. -/
def rxDescSize : Nat := 16

structure DmaBuffer where
  virt : Nat
  phys : Nat
  length : Nat
  deriving DecidableEq, Repr

def dmaBuffer (h : Heap Vmm) (virt length : Nat) : DmaBuffer :=
  ⟨virt, vmmVirtToPhys h.pages h.pages.kernelSpace virt, length⟩

variable (contents : Vmm → Nat → Bytes)

/-- The loop body of `e1000_init_rx`. -/
def e1000InitRxBuffer (s : Heap Vmm × List DmaBuffer) : Outcome (Heap Vmm × List DmaBuffer) := do
  let (h, rxBuffer) ← s.1.kmalloc (kernelPages contents) rxBufferSize
  pure (h, dmaBuffer h rxBuffer rxBufferSize :: s.2)

/-- `e1000_init_rx`, with the buffers that the device is told of, the last one first. -/
def e1000InitRx (h : Heap Vmm) : Outcome (Heap Vmm × List DmaBuffer) := do
  let (h, rxDescs) ← h.kmalloc (kernelPages contents) (rxDescSize * rxDescCount)
  let (h, buffers) ← Outcome.forRange (fun _ => e1000InitRxBuffer contents) rxDescCount 0 (h, [])
  pure (h, dmaBuffer h rxDescs (rxDescCount * rxDescSize) :: buffers)

def e1000InitTx (h : Heap Vmm) : Outcome (Heap Vmm × List DmaBuffer) := do
  let (h, txDescs) ← h.kmalloc (kernelPages contents) (txDescSize * txDescCount)
  pure (h, [dmaBuffer h txDescs (txDescCount * txDescSize)])

def e1000Send (h : Heap Vmm) (data len : Nat) : DmaBuffer := dmaBuffer h data len

end Xos.Io
