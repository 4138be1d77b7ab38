import Xos.Io.Dma
import Xos.Net.Ethernet

/-!
# Frames on their way out (`ethernet.c`, `e1000.c`)

`ethernet_send` frees the memory of a frame before the card has read it. What is sent is the frame as long as the heap
keeps away from that memory.
-/
namespace Xos.Net

open Io Memory Lib Lib.BlockList Relation Outcome Function List Option

/-- `tx_desc`, with `E1000_TXD_STAT_DD` for its status. -/
structure TxDesc where
  addr : Nat
  length : Nat
  done : Bool

/-- A call of `ethernet_send` between filling its memory and freeing it, and whether the card has been told. -/
structure SendCall where
  frame : List Byte
  handed : Bool

/-- The heap, the transmit ring, and the calls of `ethernet_send` by the address of their memory. The rest is for
the record: for each descriptor the address and the content of its frame, and the bytes that the card has read so far;
and for each frame that the card is done with, what it sent. -/
structure Transmitter where
  dma : DmaLedger
  calls : Nat → Option SendCall
  descs : Nat → TxDesc
  txTail : Nat
  buffer : Nat → Nat
  frame : Nat → List Byte
  fetched : Nat → Nat → Option Byte
  sent : List (List Byte × List Byte)

namespace Transmitter

def moved (s : Transmitter) (h : Heap Vmm) (live : Nat → Option Nat) (calls : Nat → Option SendCall) : Transmitter :=
  { s with
    dma := ⟨h, live, s.dma.held, s.dma.extents ++ grownExtents s.dma.heap h, s.dma.handed⟩
    calls := calls }

/-- `e1000_send`, once the descriptor at the tail is done. -/
def send (s : Transmitter) (buf : Nat) (frame : List Byte) : Transmitter :=
  { s with
    calls := update s.calls buf (some ⟨frame, true⟩)
    descs := update s.descs s.txTail ⟨(e1000Send s.dma.heap buf frame.length).phys, frame.length, false⟩
    txTail := (s.txTail + 1) % txDescCount
    buffer := update s.buffer s.txTail buf
    frame := update s.frame s.txTail frame
    fetched := update s.fetched s.txTail fun _ => none }

def InFlight (s : Transmitter) (i : Nat) : Prop := i < txDescCount ∧ (s.descs i).done = false

end Transmitter

/-- What the card may read at a physical address: where the heap has a byte, that byte. -/
def Reads (h : Heap Vmm) (phys : Nat) (byte : Byte) : Prop :=
  ∀ x, kernelHeap ≤ x → x < h.heapEnd → translate h.pages x = phys → byte = h.mem x

/-- One operation on the heap, one stage of a call of `ethernet_send`, or one move of the card. The allocation that a
call begins with is a `malloc` like any other; `build` fills the memory, `hand` is `e1000_send`, and `release` is the
`kfree` at the end. The card reads the bytes of a frame one at a time, in any order. -/
inductive TransmitStep (contents : Vmm → Nat → Bytes) : Transmitter → Transmitter → Prop
  -- the heap, used by anyone
  | malloc {s : Transmitter} {h : Heap Vmm} {size ptr : Nat} (positive : 1 ≤ size) (small : size < 2 ^ 32)
      (returned : s.dma.heap.kmalloc (kernelPages contents) size = .ok (h, ptr)) :
      TransmitStep contents s (s.moved h (update s.dma.live ptr (some size)) s.calls)
  | free {s : Transmitter} {size ptr : Nat} (owned : s.dma.live ptr = some size) (other : s.calls ptr = none) :
      TransmitStep contents s (s.moved (s.dma.heap.kfree ptr) (update s.dma.live ptr none) s.calls)
  | write {s : Transmitter} {size ptr addr : Nat} (byte : Byte) (owned : s.dma.live ptr = some size)
      (other : s.calls ptr = none) (low : ptr ≤ addr) (high : addr < ptr + size) :
      TransmitStep contents s
        (s.moved { s.dma.heap with mem := update s.dma.heap.mem addr byte } s.dma.live s.calls)
  -- the stages of a call of `ethernet_send`
  | build {s : Transmitter} {eth : Ethernet} {dst : MacAddr} {ethertype payloadLen : BitVec 16} {payload frame : List Byte}
      {buf : Nat} (built : ethernetSend eth dst ethertype payload payloadLen (some .e1000) = .ok frame)
      (whole : payloadLen.toNat ≤ payload.length) (owned : s.dma.live buf = some (14 + payloadLen).toNat)
      (other : s.calls buf = none) :
      TransmitStep contents s (s.moved { s.dma.heap with mem := s.dma.heap.mem.copy buf frame } s.dma.live
        (update s.calls buf (some ⟨frame, false⟩)))
  | hand {s : Transmitter} {buf : Nat} {frame : List Byte} (call : s.calls buf = some ⟨frame, false⟩)
      (ready : (s.descs s.txTail).done = true) : TransmitStep contents s (s.send buf frame)
  | release {s : Transmitter} {buf : Nat} {frame : List Byte} (call : s.calls buf = some ⟨frame, true⟩) :
      TransmitStep contents s (s.moved (s.dma.heap.kfree buf) (update s.dma.live buf none)
        (update s.calls buf none))
  -- the card
  | fetch {s : Transmitter} {i j : Nat} {byte : Byte} (busy : s.InFlight i) (inside : j < (s.descs i).length)
      (read : Reads s.dma.heap ((s.descs i).addr + j) byte) :
      TransmitStep contents s
        { s with fetched := update s.fetched i (update (s.fetched i) j (some byte)) }
  | finish {s : Transmitter} {i : Nat} {bytes : List Byte} (busy : s.InFlight i) (size : bytes.length = (s.descs i).length)
      (all : ∀ j, j < bytes.length → s.fetched i j = bytes[j]?) :
      TransmitStep contents s
        { s with descs := update s.descs i { s.descs i with done := true }, sent := (s.frame i, bytes) :: s.sent }

/-- A step after which the end of the heap has not wrapped around, the frames in flight are contiguous for the card,
and no block that the step has allocated reaches a frame that was in flight, with its payload or with the header
behind it. -/
structure Spares (s s' : Transmitter) : Prop where
  unwrapped : s.dma.heap.heapEnd ≤ s'.dma.heap.heapEnd
  contiguous : ∀ i, s'.InFlight i → Contiguous (translate s'.dma.heap.pages) (s'.buffer i) (s'.frame i).length
  apart : ∀ ptr, s.dma.live ptr = none → (s'.dma.live ptr).isSome → ∀ i, s.InFlight i →
    ptr + s'.dma.heap.payloadOf ptr + heapBlockSize ≤ s.buffer i ∨ s.buffer i + (s.frame i).length ≤ ptr

variable {contents : Vmm → Nat → Bytes}

theorem ethernetSend_length {eth : Ethernet} {dst : MacAddr} {ethertype payloadLen : BitVec 16} {payload frame : List Byte}
    {driver : Option Driver} (built : ethernetSend eth dst ethertype payload payloadLen driver = .ok frame)
    (whole : payloadLen.toNat ≤ payload.length) : frame.length = (14 + payloadLen).toNat := by
  unfold ethernetSend at built
  split at built
  · cases built
  dsimp only at built
  split at built
  · cases built
  next short =>
    obtain rfl := Except.ok.inj built
    have sum : (14 + payloadLen).toNat = 14 + payloadLen.toNat := by
      rw [BitVec.toNat_add] at short ⊢
      simp only [BitVec.reduceToNat] at short ⊢
      omega
    rw [sum]
    simp [ethernetFrame, ushortBytes]
    omega

namespace Transmitter

/-- The byte at `x` is free, or in the memory of a call. -/
def Guarded (s : Transmitter) (cells : List Cell) (x : Nat) : Prop :=
  FreeByte heapBlockSize s.dma.heap.start cells x ∨
    ∃ buf call, s.calls buf = some call ∧ buf ≤ x ∧ x < buf + call.frame.length

/-- The memory of a frame in flight is guarded and holds the frame, and so does what the card has read of it. -/
structure Flies (s : Transmitter) (cells : List Cell) (i : Nat) : Prop where
  length : (s.descs i).length = (s.frame i).length
  addr : ∀ j, j < (s.frame i).length → translate s.dma.heap.pages (s.buffer i + j) = (s.descs i).addr + j
  inside : ∀ j, j < (s.frame i).length → kernelHeap ≤ s.buffer i + j ∧ s.buffer i + j < s.dma.heap.heapEnd
  guarded : ∀ j, j < (s.frame i).length → s.Guarded cells (s.buffer i + j)
  bytes : ∀ j, j < (s.frame i).length → s.dma.heap.mem (s.buffer i + j) = (s.frame i).getD j 0
  fetched : ∀ j byte, j < (s.frame i).length → s.fetched i j = some byte → byte = (s.frame i).getD j 0

/-- The calls own their memory, which holds their frames; frames in flight are as they were handed over; and so is what
has been sent. -/
structure Faithful (s : Transmitter) (shared : Fin 512 → Prop) (cells : List Cell) (level : Nat → Nat) : Prop where
  traced : Traced s.dma shared level
  sound : HeapLedger.Sound ⟨s.dma.heap, s.dma.live⟩ cells
  owned : ∀ buf call, s.calls buf = some call → s.dma.live buf = some call.frame.length
  bytes : ∀ buf call, s.calls buf = some call → ∀ j, j < call.frame.length →
    s.dma.heap.mem (buf + j) = call.frame.getD j 0
  flights : ∀ i, s.InFlight i → s.Flies cells i
  sent : ∀ p ∈ s.sent, p.2 = p.1

end Transmitter

open Transmitter

variable {ptr : Nat} {s' : Transmitter}

section Faithful

variable {s : Transmitter} {shared : Fin 512 → Prop} {cells cells' : List Cell} {level level' : Nat → Nat}
  {h : Heap Vmm} {live : Nat → Option Nat} {calls : Nat → Option SendCall}

section

variable (faithful : s.Faithful shared cells level)
include faithful

variable {buf : Nat}

theorem Transmitter.Faithful.used {call : SendCall} (here : s.calls buf = some call) : heapBlockSize ≤ buf ∧
      ∃ n, UsedAt heapBlockSize s.dma.heap.start cells (buf - heapBlockSize) n ∧ call.frame.length ≤ n :=
  faithful.sound.owned buf _ (faithful.owned buf call here)

theorem Transmitter.Faithful.clear {x : Nat} (guarded : s.Guarded cells x) : Clear heapBlockSize s.dma.heap.start cells x := by
  rcases guarded with free | ⟨buf, call, here, low, high⟩
  · exact free.clear
  · obtain ⟨below, n, used, room⟩ := faithful.used here
    exact clear_of_payload used (by omega) (by dsimp only; omega)

/-- A move of the heap that keeps the memory of the calls and of the frames in flight. -/
theorem Transmitter.Faithful.moved (traced : Traced (s.moved h live calls).dma shared level')
    (sound : HeapLedger.Sound ⟨h, live⟩ cells')
    (unwrapped : s.dma.heap.heapEnd ≤ h.heapEnd) (owned : ∀ buf call, calls buf = some call → live buf = some call.frame.length)
    (bytes : ∀ buf call, calls buf = some call → ∀ j, j < call.frame.length → h.mem (buf + j) = call.frame.getD j 0)
    (kept : ∀ i, s.InFlight i → ∀ j, j < (s.frame i).length → s.Guarded cells (s.buffer i + j) →
      (s.moved h live calls).Guarded cells' (s.buffer i + j) ∧ h.mem (s.buffer i + j) = s.dma.heap.mem (s.buffer i + j)) :
    (s.moved h live calls).Faithful shared cells' level' := by
  refine ⟨traced, sound, owned, bytes, fun i busy => ?_, faithful.sent⟩
  have flies := faithful.flights i busy
  refine ⟨flies.length, fun j short => ?_, fun j short => ?_, fun j short => (kept i busy j short (flies.guarded j short)).1,
    fun j short => ?_, flies.fetched⟩
  · -- the extents of the heap are still there, so its translations are
    obtain ⟨low, high⟩ := flies.inside j short
    exact (faithful.traced.translate_eq traced (subset_append_left _ _) low high).trans (flies.addr j short)
  · obtain ⟨low, high⟩ := flies.inside j short
    exact ⟨low, Nat.lt_of_lt_of_le high unwrapped⟩
  · exact (kept i busy j short (flies.guarded j short)).2.trans (flies.bytes j short)

variable {size : Nat}

theorem Transmitter.Faithful.malloc (pos : 1 ≤ size)
    (small : size < 2 ^ 32) (ret : s.dma.heap.kmalloc (kernelPages contents) size = .ok (h, ptr))
    (spares : Spares s (s.moved h (update s.dma.live ptr (some size)) s.calls)) :
    ∃ cells' level', (s.moved h (update s.dma.live ptr (some size)) s.calls).Faithful shared cells' level' := by
  obtain ⟨level', traced⟩ := faithful.traced.step ⟨.heap (.malloc pos small ret), spares.unwrapped⟩
  obtain ⟨-, fresh, start, cells', sound, used, free, same⟩ :=
    faithful.sound.malloc pos small ret spares.unwrapped
  -- a byte of a call is in a block in use, which stays where it is
  have call {buf : Nat} {call : SendCall} (here : s.calls buf = some call) {x : Nat} (low : buf ≤ x)
      (high : x < buf + call.frame.length) : h.mem x = s.dma.heap.mem x := by
    obtain ⟨below, n, place, room⟩ := faithful.used here
    have bounds := faithful.sound.live_bounds (faithful.owned buf call here)
    have first := faithful.sound.repr.start
    dsimp only at bounds first
    exact same x (by omega) (by omega) (clear_of_payload (used _ _ place) (by omega) (by dsimp only; omega))
  have apart := spares.apart ptr fresh (by simp [Transmitter.moved])
  refine ⟨cells', level', faithful.moved traced sound spares.unwrapped (fun buf c here => ?_) (fun buf c here j short => ?_)
    fun i busy j short guarded => ?_⟩
  · have held := faithful.owned buf c here
    have other : buf ≠ ptr := by
      rintro rfl
      rw [fresh] at held
      cases held
    rw [update_of_ne other]
    exact held
  · rw [call here (by omega) (by omega)]
    exact faithful.bytes buf c here j short
  · obtain ⟨low, high⟩ := (faithful.flights i busy).inside j short
    have first := faithful.sound.repr.start
    dsimp only at first
    rcases guarded with byte | ⟨buf, c, here, lower, upper⟩
    · have away := apart i busy
      have still := free _ byte (by simp only [Transmitter.moved] at away; omega)
      refine ⟨Or.inl ?_, same _ (by omega) high still.clear⟩
      show FreeByte heapBlockSize h.start cells' _
      rw [start]
      exact still
    · exact ⟨Or.inr ⟨buf, c, here, lower, upper⟩, call here lower upper⟩

theorem Transmitter.Faithful.free
    (held : s.dma.live ptr = some size) (rest : ∀ buf call, calls buf = some call → buf ≠ ptr ∧ s.calls buf = some call)
    (gone : ∀ buf call, s.calls buf = some call → buf ≠ ptr → calls buf = some call) :
    ∃ cells', (s.moved (s.dma.heap.kfree ptr) (update s.dma.live ptr none) calls).Faithful shared cells' level := by
  have globals := Heap.sameGlobals_kfree s.dma.heap ptr
  obtain ⟨cells', sound, freed, same⟩ := faithful.sound.free held
  have traced := faithful.traced.stay ⟨cells', sound⟩ globals.pages globals.heapEnd
  refine ⟨cells', faithful.moved traced sound (Nat.le_of_eq globals.heapEnd.symm) (fun buf call here => ?_)
    (fun buf call here j short => ?_) fun i busy j short guarded => ⟨?_, same _ (faithful.clear guarded)⟩⟩
  · obtain ⟨other, before⟩ := rest buf call here
    rw [update_of_ne other]
    exact faithful.owned buf call before
  · obtain ⟨-, before⟩ := rest buf call here
    rw [same _ (faithful.clear (Or.inr ⟨buf, call, before, by omega, by omega⟩))]
    exact faithful.bytes buf call before j short
  · have free (inside : FreeByte heapBlockSize s.dma.heap.start cells (s.buffer i + j) ∨
        ptr ≤ s.buffer i + j ∧ s.buffer i + j < ptr + size) :
        (s.moved (s.dma.heap.kfree ptr) (update s.dma.live ptr none) calls).Guarded cells' (s.buffer i + j) := by
      left
      show FreeByte heapBlockSize (s.dma.heap.kfree ptr).start cells' _
      rw [globals.start]
      exact freed _ inside
    rcases guarded with byte | ⟨buf, call, here, low, high⟩
    · exact free (Or.inl byte)
    · by_cases own : buf = ptr
      · -- the memory of the call itself becomes free
        subst own
        have length := some.inj (held.symm.trans (faithful.owned buf call here))
        exact free (Or.inr ⟨low, by omega⟩)
      · exact Or.inr ⟨buf, call, gone buf call here own, low, high⟩

theorem Transmitter.Faithful.release {call : SendCall}
    (here : s.calls buf = some call) : ∃ cells', (s.moved (s.dma.heap.kfree buf) (update s.dma.live buf none)
      (update s.calls buf none)).Faithful shared cells' level := by
  refine faithful.free (faithful.owned buf call here) (fun b c other => ?_) fun b c other differ =>
    (update_of_ne differ _ _).trans other
  have differ : b ≠ buf := by
    rintro rfl
    rw [update_self] at other
    cases other
  exact ⟨differ, (update_of_ne differ _ _).symm.trans other⟩

theorem Transmitter.Faithful.rewrite {mem : Bytes} (held : s.dma.live ptr = some size) (other : s.calls ptr = none)
    (agree : ∀ x, x < ptr ∨ ptr + size ≤ x → mem x = s.dma.heap.mem x)
    (old : ∀ buf call, buf ≠ ptr → (calls buf = some call ↔ s.calls buf = some call))
    (new : ∀ call, calls ptr = some call → call.frame.length = size ∧
      ∀ j, j < size → mem (ptr + j) = call.frame.getD j 0) :
    (s.moved { s.dma.heap with mem := mem } s.dma.live calls).Faithful shared cells level := by
  have sound := faithful.sound.rewrite held agree
  have traced := faithful.traced.stay ⟨cells, sound⟩ rfl rfl
  obtain ⟨below, n, used, room⟩ := faithful.sound.owned ptr size held
  -- guarded bytes are not in this memory
  have away {x : Nat} (guarded : s.Guarded cells x) : mem x = s.dma.heap.mem x := by
    apply agree
    rcases guarded with free | ⟨buf, call, here, low, high⟩
    · by_contra inside
      exact free.not_used used (by omega) (by omega) (by decide)
    · obtain ⟨below', n', used', room'⟩ := faithful.used here
      have differ : buf ≠ ptr := by
        rintro rfl
        rw [other] at here
        cases here
      have apart := placed_disjoint used' used (by omega)
      dsimp only at apart
      omega
  refine faithful.moved traced sound (Nat.le_refl _) (fun buf call here => ?_) (fun buf call here j short => ?_)
    fun i busy j short guarded => ⟨?_, away guarded⟩
  · by_cases own : buf = ptr
    · subst own
      rw [(new call here).1]
      exact held
    · exact faithful.owned buf call ((old buf call own).mp here)
  · by_cases own : buf = ptr
    · subst own
      obtain ⟨length, written⟩ := new call here
      exact written j (by omega)
    · have before := (old buf call own).mp here
      show mem (buf + j) = _
      rw [away (Or.inr ⟨buf, call, before, by omega, by omega⟩)]
      exact faithful.bytes buf call before j short
  · refine guarded.imp_right ?_
    rintro ⟨buf, call, here, low, high⟩
    have differ : buf ≠ ptr := by
      rintro rfl
      rw [other] at here
      cases here
    exact ⟨buf, call, (old buf call differ).mpr here, low, high⟩

theorem Transmitter.Faithful.hand {frame : List Byte}
    (call : s.calls buf = some ⟨frame, false⟩) (spares : Spares s (s.send buf frame)) :
      (s.send buf frame).Faithful shared cells level := by
  -- the call goes on with the same frame
  have same {b : Nat} {c : SendCall} (here : (s.send buf frame).calls b = some c) :
      ∃ c', s.calls b = some c' ∧ c'.frame = c.frame := by
    by_cases own : b = buf
    · subst own
      obtain rfl : (⟨frame, true⟩ : SendCall) = c := by simpa [send] using here
      exact ⟨_, call, rfl⟩
    · exact ⟨c, (update_of_ne own _ _).symm.trans here, rfl⟩
  have guarded {x : Nat} (old : s.Guarded cells x) : (s.send buf frame).Guarded cells x := by
    refine old.imp_right ?_
    rintro ⟨b, c, here, low, high⟩
    by_cases own : b = buf
    · subst own
      obtain rfl := mem_unique call here
      exact ⟨b, ⟨frame, true⟩, update_self .., low, high⟩
    · exact ⟨b, c, (update_of_ne own _ _).trans here, low, high⟩
  refine ⟨faithful.traced, faithful.sound, fun b c here => ?_, fun b c here j short => ?_, fun i busy => ?_, faithful.sent⟩
  · obtain ⟨c', before, equal⟩ := same here
    rw [← equal]
    exact faithful.owned b c' before
  · obtain ⟨c', before, equal⟩ := same here
    rw [← equal] at short ⊢
    exact faithful.bytes b c' before j short
  · by_cases tail : i = s.txTail
    · subst tail
      have contiguous := spares.contiguous _ busy
      have bounds := faithful.sound.live_bounds (faithful.owned buf _ call)
      simp only [send, update_self] at contiguous
      dsimp only at bounds
      refine ⟨?_, ?_, ?_, ?_, ?_, ?_⟩ <;> simp only [send, update_self]
      · exact fun j short => contiguous j short
      · exact fun j short => ⟨by omega, by omega⟩
      · exact fun j short => guarded (Or.inr ⟨buf, _, call, by omega, by dsimp only; omega⟩)
      · exact fun j short => faithful.bytes buf _ call j short
      · exact fun j byte _ none => absurd none (by simp)
    · have before : s.InFlight i := by simpa only [InFlight, send, update_of_ne tail] using busy
      obtain ⟨length, addr, inside, guard, bytes, fetched⟩ := faithful.flights i before
      refine ⟨?_, ?_, ?_, ?_, ?_, ?_⟩ <;> simp only [send, update_of_ne tail]
      · exact length
      · exact addr
      · exact inside
      · exact fun j short => guarded (guard j short)
      · exact bytes
      · exact fetched

theorem Transmitter.Faithful.fetch {i j : Nat} {byte : Byte} (busy : s.InFlight i)
    (read : Reads s.dma.heap ((s.descs i).addr + j) byte) :
    ({ s with fetched := update s.fetched i (update (s.fetched i) j (some byte)) } : Transmitter).Faithful
      shared cells level := by
  refine ⟨faithful.traced, faithful.sound, faithful.owned, faithful.bytes, fun k flight => ?_, faithful.sent⟩
  obtain ⟨length, addr, inside, guarded, bytes, fetched⟩ := faithful.flights k flight
  refine ⟨length, addr, inside, guarded, bytes, fun m b short got => ?_⟩
  by_cases here : k = i ∧ m = j
  · obtain ⟨rfl, rfl⟩ := here
    simp only [update_self, some.injEq] at got
    obtain ⟨low, high⟩ := inside m short
    rw [← got, read _ low high (addr m short)]
    exact bytes m short
  · refine fetched m b short ?_
    rw [← got]
    by_cases slot : k = i
    · subst slot
      simp only [update_self]
      rw [update_of_ne fun equal => here ⟨rfl, equal⟩]
    · simp only [update_of_ne slot]

theorem Transmitter.Faithful.finish {i : Nat} {bytes : List Byte} (busy : s.InFlight i)
    (size : bytes.length = (s.descs i).length) (all : ∀ j, j < bytes.length → s.fetched i j = bytes[j]?) :
    ({ s with descs := update s.descs i { s.descs i with done := true }, sent := (s.frame i, bytes) :: s.sent } :
      Transmitter).Faithful shared cells level := by
  have flies := faithful.flights i busy
  have length : bytes.length = (s.frame i).length := size.trans flies.length
  refine ⟨faithful.traced, faithful.sound, faithful.owned, faithful.bytes, fun k flight => ?_, fun p mem => ?_⟩
  · obtain ⟨slot, status⟩ := flight
    have other : k ≠ i := by
      rintro rfl
      simp at status
    simp only [update_of_ne other] at status
    obtain ⟨length, addr, inside, guarded, held, fetched⟩ := faithful.flights k ⟨slot, status⟩
    refine ⟨?_, ?_, inside, guarded, held, fetched⟩ <;> simp only [update_of_ne other]
    · exact length
    · exact addr
  · rcases mem_cons.mp mem with rfl | old
    · refine ext_getElem length fun j short short' => ?_
      have got := all j short
      rw [getElem?_eq_getElem short] at got
      rw [flies.fetched j _ short' got, getD_eq_getElem _ _ short']
    · exact faithful.sent p old

theorem Transmitter.Faithful.step
    (step : TransmitStep contents s s') (spares : Spares s s') : ∃ cells' level', s'.Faithful shared cells' level' := by
  cases step with
  | malloc pos small ret => exact faithful.malloc pos small ret spares
  | free owned other =>
    have differ {buf : Nat} {call : SendCall} (here : s.calls buf = some call) : buf ≠ _ := fun same => by
      rw [same, other] at here
      cases here
    obtain ⟨cells', next⟩ := faithful.free owned (fun buf call here => ⟨differ here, here⟩) fun buf call here _ => here
    exact ⟨cells', level, next⟩
  | write byte owned other low high =>
    refine ⟨cells, level, faithful.rewrite owned other (fun x outside => update_of_ne (by omega) _ _)
      (fun _ _ _ => Iff.rfl) fun call here => ?_⟩
    rw [other] at here
    cases here
  | build built whole owned other =>
    have length := ethernetSend_length built whole
    refine ⟨cells, level, faithful.rewrite owned other (fun x outside => Bytes.copy_outside _ _ (by omega))
      (fun b call differ => by rw [update_of_ne differ]) fun call here => ?_⟩
    simp only [update_self, some.injEq] at here
    obtain rfl := here
    exact ⟨length, fun j short => Bytes.copy_inside _ _ (by omega)⟩
  | hand call ready => exact ⟨cells, level, faithful.hand call spares⟩
  | release call =>
    obtain ⟨cells', next⟩ := faithful.release call
    exact ⟨cells', level, next⟩
  | fetch busy inside read => exact ⟨cells, level, faithful.fetch busy read⟩
  | finish busy size all => exact ⟨cells, level, faithful.finish busy size all⟩

end

end Faithful

/-- The state after `heap_init` and `e1000_init_tx`: every descriptor is done. -/
def idleTransmitter (h : Heap Vmm) (held : Set Nat) (extents : List Extent) : Transmitter where
  dma := ⟨h, fun _ => none, held, extents, []⟩
  calls := fun _ => none
  descs := fun _ => ⟨0, 0, true⟩
  txTail := 0
  buffer := fun _ => 0
  frame := fun _ => []
  fetched := fun _ _ => none
  sent := []

/-- However the heap, the calls of `ethernet_send` and the card take turns, every frame is sent as it was put together,
if no block that is allocated while a frame is in flight reaches the memory of the frame and the frames in flight are
contiguous for the card. -/
theorem frames_sent_as_built (contents : Vmm → Nat → Bytes) (v : Vmm) (mem : Bytes) (h : Heap Vmm) (held : Set Nat)
    (shared : Fin 512 → Prop) (level : Nat → Nat) (wf : v.WellFormed shared level) (root : level v.kernelSpace.pml4 = 4)
    (others : ∀ page ∈ held, Vmm.Plain v level page ∧ v.pmm.bit page = true)
    (started : heapInit (kernelPages contents) v mem = .ok h) (s : Transmitter)
    (run : ReflTransGen (fun s s' => TransmitStep contents s s' ∧ Spares s s')
      (idleTransmitter h held [extentAt v kernelHeap heapInitialPages]) s) :
    ∀ p ∈ s.sent, p.2 = p.1 := by
  obtain ⟨level', traced⟩ := Traced.initial wf root others started
  have initial : (idleTransmitter h held [extentAt v kernelHeap heapInitialPages]).Faithful shared
      [⟨heapInitialPages * pageSize - heapBlockSize, true⟩] level' := by
    refine ⟨traced, .start started, ?_, ?_, ?_, ?_⟩ <;> simp [idleTransmitter, InFlight]
  obtain ⟨_, _, faithful⟩ := invariant_of_run (fun s => ∃ cells level, s.Faithful shared cells level)
    (fun _ _ ⟨_, _, faithful⟩ ⟨step, spares⟩ => faithful.step step spares) run ⟨_, level', initial⟩
  exact faithful.sent

structure OneExtent (h : Heap Vmm) (image : Nat) : Prop where
  stop : h.heapEnd = kernelHeap + 16384
  maps : ∀ i, i < 16384 → translate h.pages (kernelHeap + i) = image + i

section OneExtent

variable {h h' : Heap Vmm} {image : Nat}

section

variable (one : OneExtent h image)
include one

theorem OneExtent.congr (pages : h'.pages = h.pages) (stop : h'.heapEnd = h.heapEnd) : OneExtent h' image :=
  ⟨stop.trans one.stop, pages ▸ one.maps⟩

theorem OneExtent.kmalloc
    (ret : h.kmalloc (kernelPages contents) 14 = .ok (h', ptr)) (stop : h'.heapEnd = kernelHeap + 16384) : OneExtent h' image := by
  rcases Heap.kmalloc_grownBy ret with ⟨pages, same⟩ | ⟨-, grown⟩
  · exact one.congr pages same
  · rw [stop, one.stop] at grown
    exact absurd grown (by decide +kernel)

theorem OneExtent.contiguous {lo len : Nat} (low : kernelHeap ≤ lo) (high : lo + len ≤ h.heapEnd) :
    Contiguous (translate h.pages) lo len := by
  have stop := one.stop
  intro i inside
  obtain ⟨k, rfl⟩ := Nat.exists_eq_add_of_le low
  rw [Nat.add_assoc, one.maps (k + i) (by omega), one.maps k (by omega), Nat.add_assoc]

theorem OneExtent.reads {x : Nat} (low : kernelHeap ≤ x) (high : x < h.heapEnd) : Reads h (translate h.pages x) (h.mem x) := by
  have stop := one.stop
  intro y low' high' same
  obtain ⟨i, rfl⟩ := Nat.exists_eq_add_of_le low
  obtain ⟨k, rfl⟩ := Nat.exists_eq_add_of_le low'
  rw [one.maps i (by omega), one.maps k (by omega)] at same
  rw [Nat.add_left_cancel same]

end

end OneExtent

variable {s : Transmitter}

theorem plain_run (run : ReflTransGen (fun s s' => TransmitStep contents s s' ∧ Spares s s') s s') :
    ReflTransGen (TransmitStep contents) s s' :=
  ReflTransGen.mono (fun _ _ step => step.1) s s' run

theorem spares_of_still (same : s'.dma = s.dma)
    (contiguous : ∀ i, s'.InFlight i → Contiguous (translate s'.dma.heap.pages) (s'.buffer i) (s'.frame i).length) : Spares s s' := by
  refine ⟨Nat.le_of_eq (by rw [same]), contiguous, fun ptr none some => ?_⟩
  rw [same, none] at some
  cases some

theorem card_sends {i : Nat} {bytes : List Byte} (busy : s.InFlight i)
    (contiguous : ∀ k, s.InFlight k → Contiguous (translate s.dma.heap.pages) (s.buffer k) (s.frame k).length)
    (size : bytes.length = (s.descs i).length)
      (reads : ∀ j, j < bytes.length → Reads s.dma.heap ((s.descs i).addr + j) (bytes.getD j 0)) :
    ∃ s', ReflTransGen (fun s s' => TransmitStep contents s s' ∧ Spares s s') s s' ∧
      s'.sent = (s.frame i, bytes) :: s.sent := by
  -- after `k` steps the first `k` bytes have been read
  have fetches (k : Nat) (most : k ≤ bytes.length) : ∃ fetched,
      ReflTransGen (fun s s' => TransmitStep contents s s' ∧ Spares s s') s { s with fetched := fetched } ∧
      ∀ j, j < k → fetched i j = bytes[j]? := by
    induction k with
    | zero => exact ⟨s.fetched, .refl, by simp⟩
    | succ k ih =>
      obtain ⟨fetched, run, got⟩ := ih (by omega)
      refine ⟨update fetched i (update (fetched i) k (some (bytes.getD k 0))), run.tail
        ⟨.fetch busy (show k < (s.descs i).length by omega) (reads k (by omega)), spares_of_still rfl contiguous⟩, fun j before => ?_⟩
      rw [update_self]
      by_cases last : j = k
      · rw [last, update_self, getElem?_eq_getElem (by omega), getD_eq_getElem _ _ (by omega)]
      · rw [update_of_ne last, got j (by omega)]
  obtain ⟨fetched, run, got⟩ := fetches bytes.length le_rfl
  refine ⟨_, run.tail ⟨.finish busy size got, spares_of_still rfl fun k flight => contiguous k ⟨flight.1, ?_⟩⟩, rfl⟩
  have status := flight.2
  by_cases own : k = i
  · subst own
    simp at status
  · simpa only [update_of_ne own] using status

/-- The card has the address `02:02:02:02:02:02`. -/
def quietEthernet : Ethernet := ⟨fun _ => ⟨0, fun _ => 0⟩, fun _ => ⟨0, none, 0, 0⟩, fun _ => none, fun _ => 2⟩

/-- A frame without payload to the hosts `01:01:01:01:01:01`. -/
def helloFrame : List Byte := ethernetFrame (fun _ => 1) (fun _ => 2) 0x88B5 []

theorem memory_reused : (heapInit (kernelPages zeroBytes) bootVmm (fun _ => 0) >>= fun h =>
    h.kmalloc (kernelPages zeroBytes) 14 >>= fun first =>
    (Heap.kfree { first.1 with mem := first.1.mem.copy first.2 helloFrame } first.2).kmalloc (kernelPages zeroBytes) 14 >>=
      fun second => pure (first.2, first.1.heapEnd, second.2, second.1.heapEnd)) =
      .ok (kernelHeap + 32, kernelHeap + 16384, kernelHeap + 32, kernelHeap + 16384) := by
  decide +kernel

def helloIdle (h : Heap Vmm) : Transmitter := idleTransmitter h ∅ [extentAt bootVmm kernelHeap heapInitialPages]

/-- A call of `ethernet_send` has allocated its memory, and nothing else has happened. -/
def helloAllocated (h h₁ : Heap Vmm) : Transmitter :=
  (helloIdle h).moved h₁ (update (fun _ => none) (kernelHeap + 32) (some 14)) fun _ => none

def helloBuilt (h h₁ : Heap Vmm) : Transmitter :=
  (helloAllocated h h₁).moved { h₁ with mem := h₁.mem.copy (kernelHeap + 32) helloFrame }
    (update (fun _ => none) (kernelHeap + 32) (some 14))
    (update (fun _ => none) (kernelHeap + 32) (some ⟨helloFrame, false⟩))

def helloHanded (h h₁ : Heap Vmm) : Transmitter :=
  (helloBuilt h h₁).send (kernelHeap + 32) helloFrame

def helloReturned (h h₁ : Heap Vmm) : Transmitter :=
  let s := helloHanded h h₁
  s.moved (s.dma.heap.kfree (kernelHeap + 32)) (update s.dma.live (kernelHeap + 32) none)
    (update s.calls (kernelHeap + 32) none)

def helloReused (h h₁ h₂ : Heap Vmm) : Transmitter :=
  let s := helloReturned h h₁
  s.moved h₂ (update s.dma.live (kernelHeap + 32) (some 14)) s.calls

def helloOverwritten (h h₁ h₂ : Heap Vmm) : Transmitter :=
  let s := helloReused h h₁ h₂
  s.moved { h₂ with mem := update h₂.mem (kernelHeap + 32) 0xAA } s.dma.live s.calls

section Hello

variable {h h₁ h₂ : Heap Vmm} {image : Nat}

theorem helloHanded_inFlight (i : Nat) : (helloHanded h h₁).InFlight i ↔ i = 0 := by
  by_cases zero : i = 0
  · subst zero
    exact iff_of_true ⟨by decide, rfl⟩ rfl
  · refine iff_of_false (fun flight => ?_) zero
    have status : (update (fun _ => (⟨0, 0, true⟩ : TxDesc)) 0 _ i).done = false := flight.2
    rw [update_of_ne zero] at status
    cases status

theorem hello_contiguous (one : OneExtent s.dma.heap image) (flight : ∀ i, s.InFlight i ↔ i = 0)
    (buffer : s.buffer 0 = kernelHeap + 32) (frame : s.frame 0 = helloFrame) (i : Nat) (here : s.InFlight i) :
    Contiguous (translate s.dma.heap.pages) (s.buffer i) (s.frame i).length := by
  obtain rfl := (flight i).mp here
  rw [buffer, frame]
  refine one.contiguous (Nat.le_add_right _ _) ?_
  rw [one.stop]
  decide

theorem helloReturned_oneExtent (one : OneExtent h₁ image) : OneExtent (helloReturned h h₁).dma.heap image := by
  have globals := Heap.sameGlobals_kfree ({ h₁ with mem := h₁.mem.copy (kernelHeap + 32) helloFrame } : Heap Vmm) (kernelHeap + 32)
  exact one.congr globals.pages globals.heapEnd

theorem hello_run (one : OneExtent h image) (first : h.kmalloc (kernelPages zeroBytes) 14 = .ok (h₁, kernelHeap + 32))
    (stop : h₁.heapEnd = kernelHeap + 16384) : ReflTransGen (fun s s' => TransmitStep zeroBytes s s' ∧ Spares s s') (helloIdle h)
      (helloReturned h h₁) := by
  have one₁ := one.kmalloc first stop
  have idle (i : Nat) : ¬(helloAllocated h h₁).InFlight i := by
    simp [InFlight, helloAllocated, moved, helloIdle, idleTransmitter]
  have allocate : TransmitStep zeroBytes (helloIdle h) (helloAllocated h h₁) ∧
      Spares (helloIdle h) (helloAllocated h h₁) :=
    ⟨.malloc (by decide) (by decide) first, Nat.le_of_eq (one.stop.trans stop.symm), fun i flight => absurd flight (idle i),
      fun _ _ _ i flight => absurd flight (idle i)⟩
  have build : TransmitStep zeroBytes (helloAllocated h h₁) (helloBuilt h h₁) ∧
      Spares (helloAllocated h h₁) (helloBuilt h h₁) := by
    refine ⟨?_, Nat.le_refl _, fun i flight => absurd flight (idle i), fun _ _ _ i flight => absurd flight (idle i)⟩
    have built : ethernetSend quietEthernet (fun _ => 1) 0x88B5 [] 0 (some .e1000) = .ok helloFrame := rfl
    exact .build built (Nat.le_refl _) (by simp [helloAllocated, moved]) rfl
  have hand : TransmitStep zeroBytes (helloBuilt h h₁) (helloHanded h h₁) ∧
      Spares (helloBuilt h h₁) (helloHanded h h₁) := by
    refine ⟨.hand (by simp [helloBuilt, moved]) rfl, spares_of_still rfl ?_⟩
    exact hello_contiguous (one₁.congr rfl rfl) helloHanded_inFlight rfl rfl
  have release : TransmitStep zeroBytes (helloHanded h h₁) (helloReturned h h₁) ∧
      Spares (helloHanded h h₁) (helloReturned h h₁) := by
    have one₂ : OneExtent (helloReturned h h₁).dma.heap image := helloReturned_oneExtent one₁
    have call : (helloHanded h h₁).calls (kernelHeap + 32) = some ⟨helloFrame, true⟩ := by
      simp [helloHanded, send]
    refine ⟨.release call, Nat.le_of_eq (stop.trans one₂.stop.symm), hello_contiguous one₂ helloHanded_inFlight rfl rfl,
      fun ptr none some => ?_⟩
    by_cases own : ptr = kernelHeap + 32
    · rw [own] at some
      simp [helloReturned, moved] at some
    · have same : (helloReturned h h₁).dma.live ptr = (helloHanded h h₁).dma.live ptr :=
        update_of_ne own _ _
      rw [same, none] at some
      cases some
  exact .tail (.tail (.tail (.single allocate) build) hand) release

def helloBytes (mem : Bytes) : List Byte := (range 14).map fun j => mem (kernelHeap + 32 + j)

/-- The card can send whatever the heap has by now where the frame was put. -/
theorem hello_sends (one : OneExtent s.dma.heap image) (flight : ∀ i, s.InFlight i ↔ i = 0)
    (buffer : s.buffer 0 = kernelHeap + 32) (frame : s.frame 0 = helloFrame) (desc : s.descs 0 = ⟨image + 32, 14, false⟩) :
    ∃ s', ReflTransGen (fun s s' => TransmitStep contents s s' ∧ Spares s s') s s' ∧
      s'.sent = (helloFrame, helloBytes s.dma.heap.mem) :: s.sent := by
  have length : (helloBytes s.dma.heap.mem).length = 14 := by simp [helloBytes]
  have size : (helloBytes s.dma.heap.mem).length = (s.descs 0).length := by rw [length, desc]
  have reads (j : Nat) (short : j < (helloBytes s.dma.heap.mem).length) :
      Reads s.dma.heap ((s.descs 0).addr + j) ((helloBytes s.dma.heap.mem).getD j 0) := by
    have stop := one.stop
    have place : (s.descs 0).addr + j = translate s.dma.heap.pages (kernelHeap + 32 + j) := by
      rw [desc, Nat.add_assoc kernelHeap, one.maps _ (by omega), Nat.add_assoc]
    have byte : (helloBytes s.dma.heap.mem).getD j 0 = s.dma.heap.mem (kernelHeap + 32 + j) := by
      simp [helloBytes, show j < 14 by omega]
    rw [place, byte]
    exact one.reads (by omega) (by omega)
  obtain ⟨s', run, sent⟩ := card_sends ((flight 0).mpr rfl) (hello_contiguous one flight buffer frame) size reads
  exact ⟨s', run, frame ▸ sent⟩

theorem helloReturned_desc (one : OneExtent h₁ image) : (helloReturned h h₁).descs 0 = ⟨image + 32, 14, false⟩ := by
  have addr : translate h₁.pages (kernelHeap + 32) = image + 32 := one.maps 32 (by decide)
  show (⟨translate h₁.pages (kernelHeap + 32), 14, false⟩ : TxDesc) = _
  rw [addr]

theorem hello_overwritten (second : (helloReturned h h₁).dma.heap.kmalloc (kernelPages zeroBytes) 14 = .ok (h₂, kernelHeap + 32)) :
    ReflTransGen (TransmitStep zeroBytes) (helloReturned h h₁) (helloOverwritten h h₁ h₂) := by
  have malloc : TransmitStep zeroBytes (helloReturned h h₁) (helloReused h h₁ h₂) :=
    .malloc (by decide) (by decide) second
  have owned : (helloReused h h₁ h₂).dma.live (kernelHeap + 32) = some 14 := by simp [helloReused, moved]
  have other : (helloReused h h₁ h₂).calls (kernelHeap + 32) = none := by simp [helloReused, helloReturned, moved]
  have write : TransmitStep zeroBytes (helloReused h h₁ h₂) (helloOverwritten h h₁ h₂) :=
    .write 0xAA owned other (Nat.le_refl _) (Nat.lt_add_of_pos_right (by decide))
  exact .tail (.single malloc) write

end Hello

theorem hello_allocations : ∃ h h₁ h₂ image, heapInit (kernelPages zeroBytes) bootVmm (fun _ => 0) = .ok h ∧
    OneExtent h image ∧ h.kmalloc (kernelPages zeroBytes) 14 = .ok (h₁, kernelHeap + 32) ∧ h₁.heapEnd = kernelHeap + 16384 ∧
    (helloReturned h h₁).dma.heap.kmalloc (kernelPages zeroBytes) 14 = .ok (h₂, kernelHeap + 32) ∧
      h₂.heapEnd = kernelHeap + 16384 := by
  obtain ⟨h, ⟨h₁, p⟩, started, first, rest⟩ := of_bind₂ memory_reused
  obtain ⟨⟨h₂, q⟩, second, seen⟩ := of_bind rest
  simp only [ok_pair, Prod.mk.injEq] at seen
  obtain ⟨rfl, stop₁, rfl, stop₂⟩ := seen
  obtain ⟨level, traced⟩ := Traced.initial bootVmm_wellFormed Radix.ranked_self
    (fun page mem => absurd mem (Set.notMem_empty page)) started
  refine ⟨h, h₁, h₂, framesFor bootVmm heapInitialPages, started, ⟨?_, ?_⟩, first, stop₁, second, stop₂⟩
  · exact traced.tile.2.2.symm
  · exact traced.maps _ mem_cons_self

/-- The memory of a frame in flight is freed, allocated by someone else and written to before the card reads it. -/
theorem frame_overwritten : ∃ h s frame bytes, heapInit (kernelPages zeroBytes) bootVmm (fun _ => 0) = .ok h ∧
    ReflTransGen (TransmitStep zeroBytes) (idleTransmitter h ∅ [extentAt bootVmm kernelHeap heapInitialPages]) s ∧
    (frame, bytes) ∈ s.sent ∧ frame.head? = some 0x01 ∧ bytes.head? = some 0xAA := by
  obtain ⟨h, h₁, h₂, image, started, one, first, stop₁, second, stop₂⟩ := hello_allocations
  have one₁ := one.kmalloc first stop₁
  have one₂ := (helloReturned_oneExtent one₁).kmalloc second stop₂
  have start := plain_run (hello_run one first stop₁)
  have overwritten : OneExtent (helloOverwritten h h₁ h₂).dma.heap image :=
    one₂.congr rfl rfl
  obtain ⟨s, run, sent⟩ := hello_sends overwritten helloHanded_inFlight rfl rfl (helloReturned_desc one₁)
  refine ⟨h, s, helloFrame, helloBytes (helloOverwritten h h₁ h₂).dma.heap.mem, started,
    (start.trans (hello_overwritten second)).trans (plain_run run), ?_, rfl, ?_⟩
  · rw [sent]
    exact mem_cons_self
  · simp [helloBytes, helloOverwritten, moved, range_succ_eq_map]

/-- The theorem applies to a frame that the card has read before anything is allocated. -/
theorem frame_sent : ∃ h s, heapInit (kernelPages zeroBytes) bootVmm (fun _ => 0) = .ok h ∧
    ReflTransGen (fun s s' => TransmitStep zeroBytes s s' ∧ Spares s s')
      (idleTransmitter h ∅ [extentAt bootVmm kernelHeap heapInitialPages]) s ∧ s.sent = [(helloFrame, helloFrame)] := by
  obtain ⟨h, h₁, h₂, image, started, one, first, stop₁, -, -⟩ := hello_allocations
  have one₁ := one.kmalloc first stop₁
  have start := hello_run one first stop₁
  obtain ⟨s, run, sent⟩ := hello_sends (helloReturned_oneExtent one₁) helloHanded_inFlight rfl rfl (helloReturned_desc one₁)
  have whole := frames_sent_as_built zeroBytes bootVmm _ h ∅ upperHalf _ bootVmm_wellFormed Radix.ranked_self
    (fun page member => absurd member (Set.notMem_empty page)) started s (start.trans run)
  refine ⟨h, s, started, start.trans run, ?_⟩
  rw [sent] at whole ⊢
  rw [show helloBytes _ = helloFrame from whole _ mem_cons_self]
  rfl

end Xos.Net
