import Xos.Lib.BlockList
import Xos.Memory.Heap

/-!
# What the heap operations do to the block list

`Heap.Repr` says that the headers in memory describe a list of cells. Each operation of `heap.c`
is shown to be an edit of that list.
-/
namespace Xos.Memory

open Word Lib Lib.BlockList
open Memory renaming heapBlockSize → hdr

variable {σ : Type}

theorem BlockField.inside (f : BlockField) : f.offset + f.width ≤ hdr := by
  cases f <;> decide

theorem BlockField.disjoint {f g : BlockField} (differ : f ≠ g) : g.offset + g.width ≤ f.offset ∨ f.offset + f.width ≤ g.offset := by
  revert differ
  cases f <;> cases g <;> decide

namespace Heap

section Fields

variable (h : Heap σ) (f g : BlockField) (b c v : Nat)

@[simp] theorem set_start : (h.set f b v).start = h.start := rfl

@[simp] theorem set_firstBlock : (h.set f b v).firstBlock = h.firstBlock := rfl

theorem get_set_same : (h.set f b v).get f b = v % 256 ^ f.width := Bytes.load_store_same _ _ _ _

theorem get_set_of_ne (differ : f ≠ g) : (h.set f b v).get g b = h.get g b := by
  have fields := BlockField.disjoint differ
  exact Bytes.load_store_of_disjoint _ _ _ _ _ _ (by omega)

theorem get_set_apart (apart : b + hdr ≤ c ∨ c + hdr ≤ b) : (h.set f b v).get g c = h.get g c := by
  have left := f.inside
  have right := g.inside
  exact Bytes.load_store_of_disjoint _ _ _ _ _ _ (by omega)

end Fields

def view (h : Heap σ) (b : Nat) : Header :=
  ⟨h.get .payloadSize b, h.get .next b, h.get .prev b, decide (h.get .free b ≠ 0)⟩

section View

variable (h : Heap σ) (f : BlockField) (b c : Nat) {v : Nat}

theorem view_set_apart (apart : b + hdr ≤ c ∨ c + hdr ≤ b) : (h.set f b v).view c = h.view c := by
  simp only [view, get_set_apart h f _ b c v apart]

theorem view_set_payloadSize (bound : v < 2 ^ 64) : (h.set .payloadSize b v).view b = { h.view b with payload := v } := by
  have stored : v % 256 ^ BlockField.payloadSize.width = v := Nat.mod_eq_of_lt bound
  simp only [view, get_set_same, stored, get_set_of_ne h .payloadSize .next b v (by decide),
    get_set_of_ne h .payloadSize .prev b v (by decide), get_set_of_ne h .payloadSize .free b v (by decide)]

theorem view_set_next (bound : v < 2 ^ 64) : (h.set .next b v).view b = { h.view b with next := v } := by
  have stored : v % 256 ^ BlockField.next.width = v := Nat.mod_eq_of_lt bound
  simp only [view, get_set_same, stored, get_set_of_ne h .next .payloadSize b v (by decide),
    get_set_of_ne h .next .prev b v (by decide), get_set_of_ne h .next .free b v (by decide)]

theorem view_set_prev (bound : v < 2 ^ 64) : (h.set .prev b v).view b = { h.view b with prev := v } := by
  have stored : v % 256 ^ BlockField.prev.width = v := Nat.mod_eq_of_lt bound
  simp only [view, get_set_same, stored, get_set_of_ne h .prev .payloadSize b v (by decide),
    get_set_of_ne h .prev .next b v (by decide), get_set_of_ne h .prev .free b v (by decide)]

theorem view_set_free (bound : v < 256) : (h.set .free b v).view b = { h.view b with free := decide (v ≠ 0) } := by
  have stored : v % 256 ^ BlockField.free.width = v := Nat.mod_eq_of_lt bound
  simp only [view, get_set_same, stored, get_set_of_ne h .free .payloadSize b v (by decide),
    get_set_of_ne h .free .next b v (by decide), get_set_of_ne h .free .prev b v (by decide)]

theorem get_payloadSize : h.get .payloadSize b = (h.view b).payload := rfl

theorem get_next : h.get .next b = (h.view b).next := rfl

theorem get_prev : h.get .prev b = (h.view b).prev := rfl

theorem get_free : h.get .free b ≠ 0 ↔ (h.view b).free = true := by simp [view]

theorem get_lt (word : f.width = 8) : h.get f b < 2 ^ 64 := by
  have bound := h.mem.load_lt (b + f.offset) f.width
  rw [word] at bound
  rw [get, word]
  exact bound

theorem view_payload_lt : (h.view b).payload < 2 ^ 64 := get_lt h .payloadSize b rfl

theorem view_next_lt : (h.view b).next < 2 ^ 64 := get_lt h .next b rfl

end View
variable {b x : Nat} {post pre : List Cell} {c : Cell}

theorem linkBack_apart (h : Heap σ) {y c : Nat} (apart : x ≠ 0 → x + hdr ≤ c ∨ c + hdr ≤ x) :
    (h.linkBack x y).view c = h.view c := by
  unfold linkBack
  split
  next real => exact view_set_apart h .prev x c (apart real)
  next => rfl

theorem linkBack_view (h : Heap σ) {y : Nat} (real : x ≠ 0) (bound : y < 2 ^ 64) :
    (h.linkBack x y).view x = { h.view x with prev := y } := by
  rw [linkBack, if_pos real]
  exact view_set_prev h x bound

theorem set_mem (h : Heap σ) (f : BlockField) (v : Nat) (apart : x < b ∨ b + hdr ≤ x) : (h.set f b v).mem x = h.mem x := by
  have inside := f.inside
  exact Bytes.store_outside _ _ _ _ (by omega)

theorem linkBack_mem (h : Heap σ) (y : Nat) (apart : b ≠ 0 → x < b ∨ b + hdr ≤ x) : (h.linkBack b y).mem x = h.mem x := by
  unfold linkBack
  split
  next real => exact set_mem h .prev y (apart real)
  next => rfl

/-- `g_heap` itself and the page source are the same: only memory differs. -/
structure SameGlobals (h h' : Heap σ) : Prop where
  start : h'.start = h.start
  firstBlock : h'.firstBlock = h.firstBlock
  heapEnd : h'.heapEnd = h.heapEnd
  pages : h'.pages = h.pages

theorem sameGlobals_set (h : Heap σ) (f : BlockField) (b v : Nat) : SameGlobals h (h.set f b v) :=
  ⟨rfl, rfl, rfl, rfl⟩

variable {h h' : Heap σ}

theorem SameGlobals.trans {h'' : Heap σ} (first : SameGlobals h h') (second : SameGlobals h' h'') : SameGlobals h h'' :=
  ⟨second.start.trans first.start, second.firstBlock.trans first.firstBlock,
    second.heapEnd.trans first.heapEnd, second.pages.trans first.pages⟩

theorem SameGlobals.set {f : BlockField} {v : Nat} (same : SameGlobals h h') : SameGlobals h (h'.set f b v) :=
  same.trans (sameGlobals_set ..)

theorem sameGlobals_linkBack (h : Heap σ) (x y : Nat) : SameGlobals h (h.linkBack x y) := by
  unfold linkBack
  split
  · exact sameGlobals_set h .prev x y
  · exact ⟨rfl, rfl, rfl, rfl⟩

theorem sameGlobals_kfree (h : Heap σ) (addr : Nat) : SameGlobals h (h.kfree addr) := by
  have next (h : Heap σ) (b : Nat) : SameGlobals h (h.coalesceNext b) := by
    unfold coalesceNext
    split
    · exact (sameGlobals_set ..).set.trans (sameGlobals_linkBack ..)
    · exact ⟨rfl, rfl, rfl, rfl⟩
  have prev (h : Heap σ) (b : Nat) : SameGlobals h (h.coalescePrev b) := by
    unfold coalescePrev
    split
    · exact (sameGlobals_set ..).set.trans (sameGlobals_linkBack ..)
    · exact ⟨rfl, rfl, rfl, rfl⟩
  unfold kfree
  exact ((sameGlobals_set _ _ _ _).trans (next _ _)).trans (prev _ _)

theorem splitBlock_eq (h : Heap σ) {n : Nat} (fits : n + hdr ≤ (h.view b).payload)
    (room : b + hdr + n + hdr ≤ 2 ^ 64) :
    h.splitBlock b n = (((((((h.set .payloadSize b n).set .next (b + hdr + n) (h.view b).next).linkBack
      (h.view b).next (b + hdr + n)).set .prev (b + hdr + n) b).set .free
      (b + hdr + n) 1).set .payloadSize (b + hdr + n)
      ((h.view b).payload - n - hdr)).set .next b (b + hdr + n)) := by
  have size : hdr = 32 := rfl
  have shrunk : (h.set .payloadSize b n).get .payloadSize b = n := by
    rw [get_payloadSize, view_set_payloadSize h b (by omega)]
  have ends : (h.set .payloadSize b n).blockEnd b = b + hdr + n := by
    rw [blockEnd, shrunk, u64_of_lt (by omega)]
  have next : (h.set .payloadSize b n).get .next b = (h.view b).next := by
    rw [get_set_of_ne h .payloadSize .next b n (by decide), get_next]
  have copied : ((h.set .payloadSize b n).set .next (b + hdr + n) (h.view b).next).get .next
      (b + hdr + n) = (h.view b).next := by
    rw [get_next, view_set_next _ _ (h.view_next_lt b)]
  have rest : sub64 (sub64 (h.view b).payload n) hdr = (h.view b).payload - n - hdr := by
    rw [sub64_of_le (show n ≤ (h.view b).payload by omega), sub64_of_le (by omega)]
  unfold splitBlock
  simp only [ends, next, copied, get_payloadSize, rest]

theorem sameGlobals_splitBlock (h : Heap σ) (b n : Nat) : SameGlobals h (h.splitBlock b n) :=
  ((sameGlobals_set ..).set.trans (sameGlobals_linkBack ..)).set.set.set.set

theorem splitBlock_view (h : Heap σ) {n : Nat} (fits : n + hdr ≤ (h.view b).payload)
    (room : b + hdr + n + hdr ≤ 2 ^ 64)
    (sep : (h.view b).next ≠ 0 → b + hdr + n + hdr ≤ (h.view b).next) :
    (h.splitBlock b n).view b = ⟨n, b + hdr + n, (h.view b).prev, (h.view b).free⟩ ∧
    (h.splitBlock b n).view (b + hdr + n) =
      ⟨(h.view b).payload - n - hdr, (h.view b).next, b, true⟩ ∧
    ((h.view b).next ≠ 0 → (h.splitBlock b n).view (h.view b).next =
      { h.view (h.view b).next with prev := b + hdr + n }) ∧
    ∀ x, x + hdr ≤ b ∨ b + hdr + n + hdr ≤ x →
      ((h.view b).next ≠ 0 → x + hdr ≤ (h.view b).next ∨ (h.view b).next + hdr ≤ x) →
      (h.splitBlock b n).view x = h.view x := by
  have size : hdr = 32 := rfl
  have nextBound := h.view_next_lt b
  have payloadBound := h.view_payload_lt b
  have behind : b + hdr ≤ b + hdr + n := Nat.le_add_right _ _
  rw [splitBlock_eq h fits room]
  generalize b + hdr + n = new at *
  refine ⟨?_, ?_, fun real => ?_, fun x apart away => ?_⟩
  · simp (disch := omega) only [view_set_next, view_set_apart, linkBack_apart, view_set_payloadSize]
  · simp (disch := omega) only [view_set_next, view_set_prev, view_set_free, view_set_apart,
      linkBack_apart, view_set_payloadSize]
    simp
  · simp (disch := omega) only [view_set_apart, linkBack_view]
  · simp (disch := omega) only [view_set_apart, linkBack_apart]

/-- The headers in memory describe `cells`, laid out from the start of the heap. Headers are below
the end of the address space, but the last payload may reach past it. -/
structure Repr (h : Heap σ) (cells : List Cell) : Prop where
  start : h.start = kernelHeap
  first : h.firstBlock = h.start
  nonempty : cells ≠ []
  stop : h.heapEnd = u64 (h.start + span heapBlockSize cells)
  bound : span heapBlockSize cells < 2 ^ 64
  paged : span heapBlockSize cells % pageSize = 0
  seg : Seg heapBlockSize h.view (h.start + span heapBlockSize cells) 0 h.start cells
  payloads : ∀ c ∈ cells, c.payload ≠ 0 ∧ c.payload % 16 = 0
  headers : ∀ x c, (x, c) ∈ placed heapBlockSize h.start cells → x + heapBlockSize ≤ 2 ^ 64

theorem Repr.view_at (repr : h.Repr (pre ++ c :: post)) : h.view (h.start + span hdr pre) = ⟨c.payload,
      if post = [] then 0 else h.start + span hdr pre + (hdr + c.payload),
      lastAddr hdr 0 h.start pre, c.free⟩ := by
  have seg := repr.seg
  rw [seg_append, seg_cons] at seg
  have total : h.start + span hdr (pre ++ c :: post) =
      h.start + span hdr pre + (hdr + c.payload) + span hdr post := by
    rw [span_append, span_cons]
    omega
  rw [seg.2.1, total, link_eq (by decide)]

theorem Repr.header_bound (repr : h.Repr (pre ++ c :: post)) : h.start + span hdr pre + hdr ≤ 2 ^ 64 :=
  repr.headers _ c (by simp)

/-- An operation that leaves `g_heap` alone and whose header writes edit the middle of the list
keeps the representation. -/
theorem Repr.edit {mid : List Cell} (repr : h.Repr (pre ++ (mid ++ post))) (mid' : List Cell) (globals : SameGlobals h h')
    (nonempty : mid' ≠ []) (same : span hdr mid' = span hdr mid)
    (payloads : ∀ c ∈ mid', c.payload ≠ 0 ∧ c.payload % 16 = 0)
    (headers : ∀ x c, (x, c) ∈ placed hdr (h.start + span hdr pre) mid' →
      x + hdr ≤ 2 ^ 64)
    (before : ∀ x, x + hdr ≤ h.start + span hdr pre → h'.view x = h.view x)
    (inside : Seg hdr h'.view (h.start + span hdr (pre ++ (mid ++ post)))
      (lastAddr hdr 0 h.start pre) (h.start + span hdr pre) mid')
    (back : post ≠ [] → h'.view (h.start + span hdr pre + span hdr mid) =
      { h.view (h.start + span hdr pre + span hdr mid) with
        prev := lastAddr hdr (lastAddr hdr 0 h.start pre)
          (h.start + span hdr pre) mid' })
    (behind : ∀ x, h.start + span hdr pre + span hdr mid + hdr ≤ x →
      h'.view x = h.view x) : h'.Repr (pre ++ (mid' ++ post)) := by
  obtain ⟨start, first, stop, -⟩ := globals
  have total : span hdr (pre ++ (mid' ++ post)) = span hdr (pre ++ (mid ++ post)) := by
    simp only [span_append, same]
  refine ⟨start.trans repr.start, ?_, by simp [nonempty], ?_, ?_, ?_, ?_, ?_, ?_⟩
  · rw [first, start, repr.first]
  · rw [stop, start, total, repr.stop]
  · rw [total]
    exact repr.bound
  · rw [total]
    exact repr.paged
  · rw [start, total]
    exact repr.seg.edit same before inside back behind
  · intro c mem
    rcases List.mem_append.mp mem with old | mem
    · exact repr.payloads c (List.mem_append_left _ old)
    · rcases List.mem_append.mp mem with new | old
      · exact payloads c new
      · exact repr.payloads c (List.mem_append_right _ (List.mem_append_right _ old))
  · intro x c mem
    have old := repr.headers x c
    rw [start] at mem
    simp only [placed_append, List.mem_append, same] at mem old
    rcases mem with mem | mem | mem
    · exact old (Or.inl mem)
    · exact headers x c mem
    · exact old (Or.inr (Or.inr mem))

theorem Repr.total_eq : h.start + span hdr (pre ++ ([c] ++ post)) =
      h.start + span hdr pre + (hdr + c.payload) + span hdr post := by
  simp only [span_append, span_cons, span_nil]
  omega

theorem Repr.prev_of_next (repr : h.Repr (pre ++ c :: post)) (more : post ≠ []) :
    (h.view (h.start + span hdr pre + (hdr + c.payload))).prev =
      h.start + span hdr pre := by
  obtain ⟨d, rest, rfl⟩ := List.exists_cons_of_ne_nil more
  have shifted : h.Repr ((pre ++ [c]) ++ d :: rest) := by simpa using repr
  have view := shifted.view_at
  have place : h.start + span hdr (pre ++ [c]) =
      h.start + span hdr pre + (hdr + c.payload) := by
    simp only [span_append, span_cons, span_nil]
    omega
  rw [place] at view
  rw [view, lastAddr_append_singleton]

theorem Repr.setFree (repr : h.Repr (pre ++ c :: post)) {v : Nat} (byte : v < 256) :
    (h.set .free (h.start + span hdr pre) v).Repr (pre ++ ⟨c.payload, decide (v ≠ 0)⟩ :: post) := by
  have here := repr.view_at
  have split : h.Repr (pre ++ ([c] ++ post)) := repr
  refine split.edit [⟨c.payload, decide (v ≠ 0)⟩] (sameGlobals_set _ _ _ _) (List.cons_ne_nil _ _) rfl
    ?_ ?_ ?_ ?_ ?_ ?_
  · intro d mem
    rw [List.mem_singleton.mp mem]
    exact repr.payloads c (by simp)
  · intro x d mem
    cases List.mem_singleton.mp mem
    exact repr.header_bound
  · exact fun x low => view_set_apart h .free _ x (Or.inr low)
  · refine ⟨?_, trivial⟩
    rw [view_set_free h _ byte, here, Repr.total_eq, link_eq (by decide)]
  · intro more
    have prev := repr.prev_of_next more
    rw [view_set_apart h .free _ _ (Or.inl (by simp only [span_cons, span_nil]; omega))]
    simp only [span_cons, span_nil, Nat.add_zero, lastAddr]
    exact Header.ext rfl rfl prev rfl
  · intro x high
    exact view_set_apart h .free _ x (Or.inl (by omega))

theorem Repr.next_eq (repr : h.Repr (pre ++ c :: post)) (real : (h.view (h.start + span hdr pre)).next ≠ 0) :
    post ≠ [] ∧ (h.view (h.start + span hdr pre)).next =
      h.start + span hdr pre + (hdr + c.payload) := by
  rw [repr.view_at] at real ⊢
  split at real
  next => exact absurd rfl real
  next more => exact ⟨more, if_neg more⟩

theorem Repr.next_clear (repr : h.Repr (pre ++ c :: post)) (clear : Clear hdr h.start (pre ++ c :: post) x)
    (real : (h.view (h.start + span hdr pre)).next ≠ 0) : x < (h.view (h.start + span hdr pre)).next ∨
      (h.view (h.start + span hdr pre)).next + hdr ≤ x := by
  obtain ⟨more, next⟩ := repr.next_eq real
  obtain ⟨d, rest, rfl⟩ := List.exists_cons_of_ne_nil more
  rw [next]
  exact (clear_cons.mp (clear_cons.mp (clear_append.mp clear).2).2).1

theorem Repr.split (repr : h.Repr (pre ++ c :: post)) {n : Nat}
    (pos : n ≠ 0) (aligned : n % 16 = 0) (fits : n + hdr < c.payload)
    (room : h.start + span hdr pre + hdr + n + hdr ≤ 2 ^ 64) :
    (h.splitBlock (h.start + span hdr pre) n).Repr
      (pre ++ ([⟨n, c.free⟩, ⟨c.payload - n - hdr, true⟩] ++ post)) := by
  have size : hdr = 32 := rfl
  have here := repr.view_at
  have payload := repr.payloads c (by simp)
  have beyond := repr.next_eq
  have old : (h.view (h.start + span hdr pre)).payload = c.payload := by rw [here]
  obtain ⟨atBlock, atNew, atNext, elsewhere⟩ := h.splitBlock_view (by rw [old]; omega) room
    (fun real => by have := (beyond real).2; omega)
  have split : h.Repr (pre ++ ([c] ++ post)) := repr
  refine split.edit [⟨n, c.free⟩, ⟨c.payload - n - hdr, true⟩] (sameGlobals_splitBlock _ _ _)
    (List.cons_ne_nil _ _) ?_ ?_ ?_ ?_ ?_ ?_ ?_
  · simp only [span_cons, span_nil]
    omega
  · intro d mem
    rcases List.mem_pair.mp mem with rfl | rfl
    · exact ⟨pos, aligned⟩
    · exact ⟨show c.payload - n - hdr ≠ 0 by omega,
        show (c.payload - n - hdr) % 16 = 0 by omega⟩
  · intro x d mem
    rcases List.mem_pair.mp mem with same | same
    · cases same
      exact repr.header_bound
    · cases same
      change h.start + span hdr pre + (hdr + n) + hdr ≤ 2 ^ 64
      omega
  · intro x low
    exact elsewhere x (Or.inl low) (fun real => by have := (beyond real).2; omega)
  · -- the two new headers
    have inner : link (h.start + span hdr (pre ++ ([c] ++ post)))
        (h.start + span hdr pre + (hdr + n)) =
        h.start + span hdr pre + hdr + n := by
      rw [Repr.total_eq, link, if_neg (by omega), Nat.add_assoc _ hdr n]
    have outer : link (h.start + span hdr (pre ++ ([c] ++ post)))
        (h.start + span hdr pre + (hdr + n) +
          (hdr + (c.payload - n - hdr))) =
        (h.view (h.start + span hdr pre)).next := by
      rw [Repr.total_eq, show h.start + span hdr pre + (hdr + n) +
          (hdr + (c.payload - n - hdr)) =
        h.start + span hdr pre + (hdr + c.payload) by omega, link_eq (by decide), here]
    refine ⟨?_, ?_, trivial⟩
    · rw [inner, atBlock, here]
    · rw [outer, ← Nat.add_assoc _ hdr n, atNew, old]
  · intro more
    have next : (h.view (h.start + span hdr pre)).next =
        h.start + span hdr pre + (hdr + c.payload) := by
      rw [here]
      exact if_neg more
    have start : h.start = kernelHeap := repr.start
    rw [next] at atNext
    simp only [span_cons, span_nil, Nat.add_zero, lastAddr]
    rw [atNext (by omega), Nat.add_assoc _ hdr n]
  · intro x high
    simp only [span_cons, span_nil] at high
    exact elsewhere x (Or.inr (by omega)) (fun real => by have := (beyond real).2; omega)

/-- The block at `b` takes over the block at `q`, which stands right behind it. Both halves of
`kfree` do this, on different pairs of blocks. -/
def absorb (h : Heap σ) (b q : Nat) : Heap σ :=
  ((h.set .payloadSize b ((h.view b).payload + (heapBlockSize + (h.view q).payload))).set .next b
    (h.view q).next).linkBack (h.view q).next b

theorem sameGlobals_absorb (h : Heap σ) (b q : Nat) : SameGlobals h (h.absorb b q) :=
  (sameGlobals_set ..).set.trans (sameGlobals_linkBack ..)

theorem coalesceNext_eq_absorb (h : Heap σ) {q : Nat} (next : (h.view b).next = q) (real : q ≠ 0)
    (free : (h.view q).free = true) (apart : b + hdr ≤ q)
    (bound : (h.view b).payload + (hdr + (h.view q).payload) < 2 ^ 64) : h.coalesceNext b = h.absorb b q := by
  have taken : h.get .next b ≠ 0 ∧ h.get .free (h.get .next b) ≠ 0 := by
    rw [get_next, next, get_free]
    exact ⟨real, free⟩
  have nextBound := h.view_next_lt q
  rw [coalesceNext, if_pos taken]
  simp (disch := omega) only [get_payloadSize, get_next, next, u64_of_lt, view_set_payloadSize,
    view_set_next, view_set_apart, absorb]

theorem coalescePrev_eq_absorb (h : Heap σ) {p : Nat} (prev : (h.view b).prev = p) (real : p ≠ 0)
    (free : (h.view p).free = true) (apart : p + hdr ≤ b)
    (bound : (h.view p).payload + (hdr + (h.view b).payload) < 2 ^ 64) : h.coalescePrev b = h.absorb p b := by
  have taken : h.get .prev b ≠ 0 ∧ h.get .free (h.get .prev b) ≠ 0 := by
    rw [get_prev, prev, get_free]
    exact ⟨real, free⟩
  rw [coalescePrev, if_pos taken]
  simp (disch := omega) only [get_payloadSize, get_next, get_prev, prev, u64_of_lt, view_set_apart, absorb]

theorem absorb_view (h : Heap σ) {q : Nat} (real : b < 2 ^ 64) (apart : b + hdr ≤ q)
    (bound : (h.view b).payload + (hdr + (h.view q).payload) < 2 ^ 64)
    (sep : (h.view q).next ≠ 0 → q + hdr ≤ (h.view q).next) :
    (h.absorb b q).view b = ⟨(h.view b).payload + (hdr + (h.view q).payload), (h.view q).next,
      (h.view b).prev, (h.view b).free⟩ ∧
    ((h.view q).next ≠ 0 → (h.absorb b q).view (h.view q).next =
      { h.view (h.view q).next with prev := b }) ∧
    ∀ x, x + hdr ≤ b ∨ b + hdr ≤ x →
      ((h.view q).next ≠ 0 → x + hdr ≤ (h.view q).next ∨ (h.view q).next + hdr ≤ x) →
      (h.absorb b q).view x = h.view x := by
  have nextBound := h.view_next_lt q
  refine ⟨?_, fun more => ?_, fun x away off => ?_⟩
  · simp (disch := omega) only [absorb, linkBack_apart, view_set_next, view_set_payloadSize]
  · simp (disch := omega) only [absorb, linkBack_view, view_set_apart]
  · simp (disch := omega) only [absorb, linkBack_apart, view_set_apart]

theorem start_behind (h : Heap σ) (pre : List Cell) (c : Cell) : h.start + span hdr (pre ++ [c]) =
    h.start + span hdr pre + (hdr + c.payload) := by
  simp only [span_append, span_cons, span_nil]
  omega

theorem Repr.absorb {d : Cell} (repr : h.Repr (pre ++ c :: d :: post)) : (h.absorb (h.start + span hdr pre)
      (h.start + span hdr pre + (hdr + c.payload))).Repr
      (pre ++ ⟨c.payload + (hdr + d.payload), c.free⟩ :: post) := by
  have size : hdr = 32 := rfl
  have here := repr.view_at
  have shifted : h.Repr ((pre ++ [c]) ++ d :: post) := by simpa using repr
  have place := start_behind h pre c
  have there := shifted.view_at
  have beyond := shifted.next_eq
  rw [place] at there beyond
  have cover := repr.bound
  have first := repr.header_bound
  have one := repr.payloads c (by simp)
  have two := repr.payloads d (by simp)
  simp only [span_append, span_cons] at cover
  obtain ⟨atBlock, atNext, elsewhere⟩ := h.absorb_view
    (b := h.start + span hdr pre) (q := h.start + span hdr pre + (hdr + c.payload))
    (by omega) (by omega) (by rw [here, there]; dsimp only; omega)
    (fun real => by have := (beyond real).2; omega)
  have split : h.Repr (pre ++ ([c, d] ++ post)) := repr
  have total : h.start + span hdr (pre ++ ([c, d] ++ post)) =
      h.start + span hdr pre + (hdr + (c.payload + (hdr + d.payload))) +
        span hdr post := by
    simp only [span_append, span_cons, span_nil]
    omega
  refine split.edit [⟨c.payload + (hdr + d.payload), c.free⟩] (sameGlobals_absorb _ _ _)
    (List.cons_ne_nil _ _) ?_ ?_ ?_ ?_ ?_ ?_ ?_
  · simp only [span_cons, span_nil]
    omega
  · intro e mem
    rw [List.mem_singleton.mp mem]
    dsimp only
    omega
  · intro x e mem
    cases List.mem_singleton.mp mem
    exact first
  · intro x low
    exact elsewhere x (Or.inl low) (fun real => by have := (beyond real).2; omega)
  · refine ⟨?_, trivial⟩
    rw [total, link_eq (by decide), atBlock, here, there]
    dsimp only
    congr 1
    split
    · rfl
    · omega
  · intro more
    have next : (h.view (h.start + span hdr pre + (hdr + c.payload))).next =
        h.start + span hdr pre + (hdr + c.payload) + (hdr + d.payload) := by
      rw [there]
      exact if_neg more
    rw [next] at atNext
    have target : h.start + span hdr pre + span hdr [c, d] =
        h.start + span hdr pre + (hdr + c.payload) + (hdr + d.payload) := by
      simp only [span_cons, span_nil]
      omega
    rw [target, lastAddr, lastAddr_nil]
    exact atNext (by omega)
  · intro x high
    simp only [span_cons, span_nil] at high
    exact elsewhere x (Or.inr (by omega)) (fun real => by have := (beyond real).2; omega)

theorem Repr.absorb_mem {d : Cell} (repr : h.Repr (pre ++ c :: d :: post))
    (clear : Clear hdr h.start (pre ++ c :: d :: post) x) : (h.absorb (h.start + span hdr pre)
      (h.start + span hdr pre + (hdr + c.payload))).mem x = h.mem x := by
  have here := clear.here
  have shifted : pre ++ c :: d :: post = (pre ++ [c]) ++ d :: post := by simp
  rw [shifted] at repr clear
  have next := repr.next_clear clear
  rw [start_behind] at next
  rw [Heap.absorb, linkBack_mem _ _ next, set_mem _ _ _ here, set_mem _ _ _ here]

theorem Repr.view_behind {d : Cell} (repr : h.Repr (pre ++ c :: d :: post)) :
    (h.view (h.start + span hdr pre + (hdr + c.payload))).payload = d.payload ∧
    (h.view (h.start + span hdr pre + (hdr + c.payload))).free = d.free := by
  have shifted : h.Repr ((pre ++ [c]) ++ d :: post) := by simpa using repr
  have place := start_behind h pre c
  have there := shifted.view_at
  rw [place] at there
  rw [there]
  exact ⟨rfl, rfl⟩

theorem Repr.start_pos {cells : List Cell} (repr : h.Repr cells) : 0 < h.start := by
  rw [repr.start]
  decide

def MergesNext (h h' : Heap σ) (pre : List Cell) (c : Cell) (post : List Cell) : Prop :=
  ∃ c' post', MergedNext heapBlockSize c post c' post' ∧ h'.Repr (pre ++ c' :: post') ∧ SameGlobals h h' ∧
    ∀ x, Clear heapBlockSize h.start (pre ++ c :: post) x → h'.mem x = h.mem x

theorem Repr.coalesceNext (repr : h.Repr (pre ++ c :: post)) :
    h.MergesNext (h.coalesceNext (h.start + span hdr pre)) pre c post := by
  have here := repr.view_at
  have pos := repr.start_pos
  -- nothing to merge with
  have stays (next : ∀ d ∈ post.head?, d.free = false)
      (same : h.coalesceNext (h.start + span hdr pre) = h) :
      h.MergesNext (h.coalesceNext (h.start + span hdr pre)) pre c post := by
    rw [same]
    exact ⟨c, post, Or.inl ⟨rfl, rfl, next⟩, repr, ⟨rfl, rfl, rfl, rfl⟩, fun _ _ => rfl⟩
  cases post with
  | nil =>
    refine stays (by simp) (if_neg ?_)
    rw [get_next, here]
    simp
  | cons d post =>
    have next : (h.view (h.start + span hdr pre)).next =
        h.start + span hdr pre + (hdr + c.payload) := by
      simp [here]
    obtain ⟨behind, flag⟩ := repr.view_behind
    cases free : d.free with
    | false =>
      refine stays (by simpa using free) (if_neg ?_)
      rw [get_next, next, get_free, flag, free]
      simp
    | true =>
      have cover := repr.bound
      simp only [span_append, span_cons] at cover
      have merged := h.coalesceNext_eq_absorb next (by omega) (by rw [flag, free]) (by omega)
        (by rw [behind, here]; dsimp only; omega)
      rw [merged]
      exact ⟨_, post, Or.inr ⟨d, rfl, free, rfl⟩, repr.absorb, sameGlobals_absorb _ _ _, fun x => repr.absorb_mem⟩

theorem Repr.coalescePrev (repr : h.Repr (pre ++ c :: post)) : ∃ pre' c', MergedPrev hdr pre c pre' c' ∧
      (h.coalescePrev (h.start + span hdr pre)).Repr (pre' ++ c' :: post) ∧
      ∀ x, Clear hdr h.start (pre ++ c :: post) x →
        (h.coalescePrev (h.start + span hdr pre)).mem x = h.mem x := by
  have here := repr.view_at
  have pos := repr.start_pos
  rcases List.eq_nil_or_concat' pre with rfl | ⟨front, p, rfl⟩
  · refine ⟨[], c, Or.inl ⟨rfl, rfl, by simp⟩, ?_⟩
    rw [Heap.coalescePrev, if_neg]
    · exact ⟨repr, fun _ _ => rfl⟩
    · rw [get_prev, here]
      simp
  · have whole : h.Repr (front ++ p :: c :: post) := by simpa using repr
    have front_view := whole.view_at
    have place : h.start + span hdr (front ++ [p]) =
        h.start + span hdr front + (hdr + p.payload) := by
      simp only [span_append, span_cons, span_nil]
      omega
    have prev : (h.view (h.start + span hdr (front ++ [p]))).prev =
        h.start + span hdr front := by
      rw [here, lastAddr_append_singleton]
    cases free : p.free with
    | false =>
      refine ⟨front ++ [p], c, Or.inl ⟨rfl, rfl, by simpa using free⟩, ?_⟩
      rw [Heap.coalescePrev, if_neg]
      · exact ⟨repr, fun _ _ => rfl⟩
      · rw [get_prev, prev, get_free, front_view]
        simp [free]
    | true =>
      have cover := whole.bound
      simp only [span_append, span_cons] at cover
      have merged := h.coalescePrev_eq_absorb prev (by omega) (by rw [front_view]; exact free) (by omega)
        (by rw [here, front_view]; dsimp only; omega)
      refine ⟨front, _, Or.inr ⟨p, rfl, free, rfl⟩, ?_⟩
      rw [merged, place, List.append_assoc, List.singleton_append]
      exact ⟨whole.absorb, fun x => whole.absorb_mem⟩

/-- `kfree` releases the block of its argument and writes to headers only. -/
theorem Repr.kfree (repr : h.Repr (pre ++ c :: post)) : ∃ cells', Released hdr pre c post cells' ∧
      (h.kfree (h.start + span hdr pre + hdr)).Repr cells' ∧
      ∀ x, Clear hdr h.start (pre ++ c :: post) x →
        (h.kfree (h.start + span hdr pre + hdr)).mem x = h.mem x := by
  have block : sub64 (h.start + span hdr pre + hdr) hdr =
      h.start + span hdr pre := by
    rw [sub64_of_le (Nat.le_add_left _ _), Nat.add_sub_cancel]
  unfold Heap.kfree
  simp only [block]
  have freed := repr.setFree (show 1 < 256 by decide)
  obtain ⟨c₁, post', next, merged, globals, first⟩ := freed.coalesceNext
  obtain ⟨pre', c₂, prev, done, second⟩ := merged.coalescePrev
  rw [globals.start] at done second
  rw [set_start] at first done second
  refine ⟨_, ⟨c₁, c₂, pre', post', next, prev, rfl⟩, done, fun x clear => ?_⟩
  obtain ⟨front, here, rear⟩ := clear_append.mp clear |>.imp_right clear_cons.mp
  have marked : Clear hdr h.start (pre ++ ⟨c.payload, true⟩ :: post) x :=
    clear_append.mpr ⟨front, clear_cons.mpr ⟨here, rear⟩⟩
  have merged : Clear hdr h.start (pre ++ c₁ :: post') x :=
    clear_append.mpr ⟨front, next.clear (clear_cons.mpr ⟨here, rear⟩)⟩
  rw [second x merged, first x marked, set_mem _ _ _ here]

end Heap
end Xos.Memory
