import Xos.Memory.HeapSpec

/-!
# What `kmalloc` and `heap_init` do to the block list

A request carves its block out of a free one, after the heap has been grown if no block is large enough.
-/
namespace Xos.Memory

open Word Lib Lib.BlockList Outcome
open Memory renaming heapBlockSize → hdr

variable {σ : Type}

namespace Heap

variable {cells : List Cell} {minSize size : Nat}

variable {stop : Nat} {c : Cell}

theorem link_of_cons {a : Nat} (ends : a + span hdr (c :: cells) = stop) : link stop a = a := by
  have size : hdr = 32 := rfl
  rw [span_cons] at ends
  rw [link, if_neg (by omega)]

theorem findFreeBlockFrom_spec (h : Heap σ) (minSize : Nat) {prev a fuel : Nat}
    (seg : Seg hdr h.view stop prev a cells) (ends : a + span hdr cells = stop)
    (real : a ≠ 0) (enough : cells.length < fuel) : (∃ pre c post, cells = pre ++ c :: post ∧ c.free = true ∧ minSize ≤ c.payload ∧
      h.findFreeBlockFrom minSize fuel (link stop a) = .ok (a + span hdr pre)) ∨
    ((∀ c ∈ cells, c.free = true → c.payload < minSize) ∧
      h.findFreeBlockFrom minSize fuel (link stop a) = .ok 0) := by
  induction cells generalizing prev a fuel with
  | nil =>
    obtain ⟨fuel, rfl⟩ := Nat.exists_eq_add_one_of_ne_zero (show fuel ≠ 0 by omega)
    right
    rw [span_nil, Nat.add_zero] at ends
    rw [link, if_pos ends, findFreeBlockFrom, if_pos rfl]
    exact ⟨by simp, rfl⟩
  | cons c cells ih =>
    obtain ⟨fuel, rfl⟩ := Nat.exists_eq_add_one_of_ne_zero (show fuel ≠ 0 by omega)
    obtain ⟨here, rest⟩ := seg
    rw [link_of_cons ends, findFreeBlockFrom, if_neg real]
    have flag : h.get .free a ≠ 0 ↔ c.free = true := by rw [get_free, here]
    have payload : h.get .payloadSize a = c.payload := by rw [get_payloadSize, here]
    by_cases fits : c.free = true ∧ minSize ≤ c.payload
    · left
      rw [if_pos (by rw [flag, payload]; exact fits)]
      exact ⟨[], c, cells, rfl, fits.1, fits.2, rfl⟩
    · rw [if_neg (by rw [flag, payload]; exact fits), get_next, here]
      rw [span_cons] at ends
      rw [List.length_cons] at enough
      -- the link of this block is where the search of the remaining cells starts
      rcases ih rest (by omega) (by omega) (show cells.length < fuel by omega) with
        ⟨pre, d, post, rfl, free, large, found⟩ | ⟨none, missed⟩
      · left
        refine ⟨c :: pre, d, post, rfl, free, large, ?_⟩
        rw [found, span_cons, Nat.add_assoc a]
      · right
        refine ⟨fun d mem free => ?_, missed⟩
        rcases List.mem_cons.mp mem with rfl | later
        · by_contra large
          exact fits ⟨free, by omega⟩
        · exact none d later free

theorem findLastBlockFrom_spec (h : Heap σ) {prev a fuel : Nat} (seg : Seg hdr h.view stop prev a (cells ++ [c]))
    (ends : a + span hdr (cells ++ [c]) = stop) (enough : cells.length < fuel) :
    h.findLastBlockFrom fuel a = .ok (a + span hdr cells) := by
  induction cells generalizing prev a fuel with
  | nil =>
    obtain ⟨fuel, rfl⟩ := Nat.exists_eq_add_one_of_ne_zero (show fuel ≠ 0 by omega)
    obtain ⟨here, -⟩ := seg
    simp only [List.nil_append, span_cons, span_nil] at ends
    rw [findLastBlockFrom, if_pos]
    · rfl
    · rw [get_next, here, link, if_pos (by omega)]
  | cons d cells ih =>
    obtain ⟨fuel, rfl⟩ := Nat.exists_eq_add_one_of_ne_zero (show fuel ≠ 0 by omega)
    have size : hdr = 32 := rfl
    obtain ⟨here, rest⟩ := seg
    rw [List.length_cons] at enough
    rw [List.cons_append, span_cons] at ends
    have next : h.get .next a = a + (hdr + d.payload) := by
      rw [get_next, here, link, if_neg]
      simp only [span_append, span_cons] at ends
      omega
    rw [findLastBlockFrom, if_neg (by rw [next]; omega), next, ih rest (by omega) (by omega), span_cons,
      Nat.add_assoc a]

theorem length_le_span (cells : List Cell) : cells.length ≤ span hdr cells := by
  have size : hdr = 32 := rfl
  induction cells with
  | nil => rfl
  | cons c cells ih =>
    rw [List.length_cons, span_cons]
    omega

variable {h : Heap σ}

theorem Repr.findFreeBlock (repr : h.Repr cells) (minSize : Nat) :
    (∃ pre c post, cells = pre ++ c :: post ∧ c.free = true ∧ minSize ≤ c.payload ∧
      h.findFreeBlock minSize = .ok (h.start + span hdr pre)) ∨
    ((∀ c ∈ cells, c.free = true → c.payload < minSize) ∧ h.findFreeBlock minSize = .ok 0) := by
  have pos := repr.start_pos
  have length := (length_le_span cells).trans_lt repr.bound
  obtain ⟨c, rest, rfl⟩ := List.exists_cons_of_ne_nil repr.nonempty
  have search := h.findFreeBlockFrom_spec minSize repr.seg rfl (by omega) length
  rw [link_of_cons rfl] at search
  rw [Heap.findFreeBlock, repr.first]
  exact search

theorem Repr.findLastBlock (repr : h.Repr (cells ++ [c])) :
    h.findLastBlock = .ok (h.start + span hdr cells) := by
  have length := (length_le_span (cells ++ [c])).trans_lt repr.bound
  rw [List.length_append] at length
  rw [Heap.findLastBlock, repr.first]
  exact h.findLastBlockFrom_spec repr.seg rfl (by omega)

theorem alignUp_eq (bound : size + 16 < 2 ^ 64) : alignUp size = (size + 15) / 16 * 16 := by
  rw [alignUp, u64_of_lt bound, sub64_of_le (by omega)]
  rfl

theorem heapBlockMinSize_eq : heapBlockMinSize = 48 := by
  rw [heapBlockMinSize, alignUp_eq (by decide)]
  rfl

variable {n : Nat}

theorem Repr.takeBlock {pre post : List Cell} (repr : h.Repr (pre ++ c :: post))
    (pos : n ≠ 0) (aligned : n % 16 = 0) (small : n ≤ 2 ^ 32) (room : n + heapBlockMinSize ≤ c.payload →
      h.start + span hdr pre + hdr + n + hdr ≤ 2 ^ 64) :
    (h.takeBlock (h.start + span hdr pre) n).1.Repr
      (pre ++ (carve hdr heapBlockMinSize n c ++ post)) := by
  have size : hdr = 32 := rfl
  have least := heapBlockMinSize_eq
  have payload : h.get .payloadSize (h.start + span hdr pre) = c.payload := by
    rw [get_payloadSize, repr.view_at]
  have sum : u64 (n + heapBlockMinSize) = n + heapBlockMinSize := u64_of_lt (by omega)
  unfold Heap.takeBlock carve
  simp only [payload, sum, ge_iff_le]
  by_cases wide : n + heapBlockMinSize ≤ c.payload
  · simp only [if_pos wide]
    have divided := repr.split pos aligned (by omega) (room wide)
    have taken := divided.setFree (show 0 < 256 by decide)
    rw [(sameGlobals_splitBlock _ _ _).start] at taken
    exact taken
  · simp only [if_neg wide]
    exact repr.setFree (show 0 < 256 by decide)

/-- Taking a block writes to its header and to those on either side of what is split off. -/
theorem Repr.takeBlock_mem {pre post : List Cell} (repr : h.Repr (pre ++ c :: post))
    (small : n ≤ 2 ^ 32) (room : n + heapBlockMinSize ≤ c.payload →
      h.start + span hdr pre + hdr + n + hdr ≤ 2 ^ 64) {x : Nat}
    (clear : Clear hdr h.start (pre ++ (carve hdr heapBlockMinSize n c ++ post)) x) :
    (h.takeBlock (h.start + span hdr pre) n).1.mem x = h.mem x := by
  have size : hdr = 32 := rfl
  have least := heapBlockMinSize_eq
  have payload : (h.view (h.start + span hdr pre)).payload = c.payload := by rw [repr.view_at]
  have sum : u64 (n + heapBlockMinSize) = n + heapBlockMinSize := u64_of_lt (by omega)
  have old := clear_of_carve clear (by omega)
  have here := old.here
  unfold Heap.takeBlock
  simp only [get_payloadSize, payload, sum, ge_iff_le]
  rw [set_mem _ _ _ here]
  by_cases wide : n + heapBlockMinSize ≤ c.payload
  · have behind : x < h.start + span hdr pre + hdr + n ∨
        h.start + span hdr pre + hdr + n + hdr ≤ x := by
      rw [carve, if_pos wide, clear_append] at clear
      have second := (clear_cons.mp (clear_cons.mp clear.2).2).1
      dsimp only at second
      omega
    rw [if_pos wide, h.splitBlock_eq (by omega) (room wide), set_mem _ _ _ here, set_mem _ _ _ behind,
      set_mem _ _ _ behind, set_mem _ _ _ behind, linkBack_mem _ _ (repr.next_clear old), set_mem _ _ _ behind,
      set_mem _ _ _ here]
  · rw [if_neg wide]

theorem sameGlobals_takeBlock (h : Heap σ) (b n : Nat) : SameGlobals h (h.takeBlock b n).1 := by
  unfold Heap.takeBlock
  dsimp only
  split
  · exact (sameGlobals_splitBlock h b n).set
  · exact sameGlobals_set _ _ _ _

variable {mem : Bytes}

theorem showPages_before {contents : Bytes} {addr x : Nat} (word : addr ≤ 2 ^ 64) (low : n ≤ x) (high : x < addr) :
    showPages mem addr n contents x = mem x := by
  have far : ¬sub64 x addr < n := by
    rw [sub64_of_lt (by omega)]
    omega
  rw [showPages, if_neg far]

variable {h' : Heap σ}

theorem view_showPages {addr : Nat} {contents : Bytes}
    (shown : h'.mem = showPages h.mem addr n contents) (word : addr ≤ 2 ^ 64) {x : Nat} (low : n ≤ x)
    (high : x + hdr ≤ addr) : h'.view x = h.view x := by
  have same (f : BlockField) : h'.get f x = h.get f x := by
    have inside := f.inside
    rw [get, get, shown]
    apply Bytes.load_congr
    intro y above below
    exact showPages_before word (by omega) (by omega)
  simp only [view, same]

/-- The heap after fresh pages have been mapped behind it, before the list is extended. -/
structure Mapped (h h' : Heap σ) (grown : Nat) (contents : Bytes) : Prop where
  start : h'.start = h.start
  firstBlock : h'.firstBlock = h.firstBlock
  heapEnd : h'.heapEnd = u64 (h.heapEnd + grown)
  mem : h'.mem = showPages h.mem h.heapEnd grown contents

section Extend

variable {h h' : Heap σ} {pre : List Cell} {c : Cell} {g : Nat} {contents : Bytes}

section

variable (mapped : Mapped h h' g contents) (repr : h.Repr (pre ++ [c]))
  (unwrapped : h.start + span hdr (pre ++ [c]) < 2 ^ 64) (small : g ≤ 2 ^ 34)
include mapped repr unwrapped small

/-- Mapping pages leaves the headers as they are, so the list can be read with its new end. -/
private theorem Mapped.views (pos : 0 < g) :
    h'.view (h.start + span hdr pre) = ⟨c.payload, 0, lastAddr hdr 0 h.start pre, c.free⟩ ∧
      Seg hdr h'.view (h.start + span hdr (pre ++ [c]) + g) 0 h.start pre := by
  have start : h.start = kernelHeap := repr.start
  have high : 2 ^ 34 ≤ kernelHeap := by decide
  have stop : h.heapEnd = h.start + span hdr (pre ++ [c]) := by rw [repr.stop, u64_of_lt unwrapped]
  have total : span hdr (pre ++ [c]) = span hdr pre + (hdr + c.payload) := by
    simp only [span_append, span_cons, span_nil]
    omega
  have same {x : Nat} (low : h.start ≤ x) (below : x + hdr ≤ h.start + span hdr (pre ++ [c])) :
      h'.view x = h.view x :=
    view_showPages mapped.mem (by omega) (by omega) (by omega)
  have seg := (seg_append.mp repr.seg).1
  have size : hdr = 32 := rfl
  refine ⟨?_, (seg.congr fun x d member => ?_).relink (by omega) (by omega)⟩
  · rw [same (by omega) (by omega), repr.view_at]
    simp
  · have bounds := placed_bounds member
    exact same bounds.1 (by omega)

omit mapped repr unwrapped small in
theorem grown_repr {grown : List Cell} (repr : h.Repr (pre ++ [c])) (mapped : Mapped h h' g contents)
    (unwrapped : h.start + span hdr (pre ++ [c]) < 2 ^ 64) (small : g ≤ 2 ^ 34)
    (paged : g % pageSize = 0) (room : pageSize ≤ g) {h'' : Heap σ} (globals : SameGlobals h' h'')
    (grow : Grown hdr g (pre ++ [c]) grown)
    (seg : Seg hdr h''.view (h.start + span hdr (pre ++ [c]) + g) 0 h.start grown) : h''.Repr grown := by
  have size : hdr = 32 := rfl
  have page : pageSize = 4096 := rfl
  have start : h''.start = h.start := globals.start.trans mapped.start
  have total := grow.span (by omega)
  have base : h.start = kernelHeap := repr.start
  have aligned : kernelHeap % 4096 = 0 := by decide
  have low : 2 ^ 63 ≤ kernelHeap := by decide
  have pages : g % 4096 = 0 := paged
  have oldPages : span hdr (pre ++ [c]) % 4096 = 0 := repr.paged
  have newPages : span hdr grown % 4096 = 0 := by omega
  have stop : h.heapEnd = h.start + span hdr (pre ++ [c]) := by rw [repr.stop, u64_of_lt unwrapped]
  refine ⟨start.trans repr.start, ?_, ?_, ?_, by omega, newPages, ?_, ?_, ?_⟩
  · rw [globals.firstBlock, mapped.firstBlock, repr.first, start]
  · obtain ⟨front, d, rfl, -, -⟩ := grow.last
    simp
  · rw [globals.heapEnd, mapped.heapEnd, stop, start, total, Nat.add_assoc]
  · rw [start, total, ← Nat.add_assoc]
    exact seg
  · intro d mem
    rcases grow.cell mem with old | ⟨last, inside, payload⟩ | payload
    · exact repr.payloads d old
    · have old := repr.payloads last inside
      rw [payload]
      exact ⟨by omega, by omega⟩
    · rw [payload]
      exact ⟨by omega, by omega⟩
  · intro x d mem
    rw [start] at mem
    rcases grow.placed mem with ⟨old, inside⟩ | rfl
    · exact repr.headers x old inside
    · -- the old end of the heap is page-aligned, so a header fits behind it
      omega

/-- `expand_heap` puts the new bytes into the last block if that is free, and into a new block
behind it otherwise. -/
private theorem Mapped.extendList (paged : g % pageSize = 0) (room : pageSize ≤ g) :
    ∃ h'' front d, h'.extendList (h.start + span hdr pre) g =
        (h'', h.start + span hdr front) ∧
      Grown hdr g (pre ++ [c]) (front ++ [d]) ∧ d.free = true ∧ g - hdr ≤ d.payload ∧
      h''.Repr (front ++ [d]) ∧ SameGlobals h' h'' ∧
      ∀ x, Clear hdr h.start (front ++ [d]) x → h''.mem x = h'.mem x := by
  have size : hdr = 32 := rfl
  have page : pageSize = 4096 := rfl
  obtain ⟨last, front⟩ := mapped.views repr unwrapped small (by omega)
  have flag : h'.get .free (h.start + span hdr pre) ≠ 0 ↔ c.free = true := by rw [get_free, last]
  have total : h.start + span hdr (pre ++ [c]) =
      h.start + span hdr pre + (hdr + c.payload) := by
    simp only [span_append, span_cons, span_nil]
    omega
  have payload : h'.get .payloadSize (h.start + span hdr pre) = c.payload := by
    rw [get_payloadSize, last]
  unfold Heap.extendList
  cases free : c.free with
  | true =>
    have grow : Grown hdr g (pre ++ [c]) (pre ++ [⟨c.payload + g, true⟩]) :=
      ⟨pre, c, rfl, Or.inl ⟨free, rfl⟩⟩
    have bound : c.payload + g < 2 ^ 64 := by
      have start : h.start = kernelHeap := repr.start
      have low : 2 ^ 63 ≤ kernelHeap := by decide
      omega
    rw [if_pos (flag.mpr free), payload, u64_of_lt bound]
    refine ⟨_, pre, _, rfl, grow, rfl, by dsimp only; omega, ?_, sameGlobals_set _ _ _ _, fun x clear => ?_⟩
    · refine grown_repr repr mapped unwrapped small paged room (sameGlobals_set _ _ _ _) grow ?_
      refine seg_append.mpr ⟨front.congr fun x d member => ?_, ?_, trivial⟩
      · have bounds := placed_bounds member
        exact view_set_apart _ _ _ _ (Or.inr (by omega))
      · rw [view_set_payloadSize _ _ bound, last, link, if_pos (by dsimp only; omega), free]
    · exact set_mem _ _ _ clear.here
  | false =>
    have grow : Grown hdr g (pre ++ [c]) ((pre ++ [c]) ++ [⟨g - hdr, true⟩]) :=
      ⟨pre, c, rfl, Or.inr ⟨free, by simp⟩⟩
    have behind : h'.blockEnd (h.start + span hdr pre) = h.start + span hdr (pre ++ [c]) := by
      rw [blockEnd, payload, Nat.add_assoc _ hdr, ← total, u64_of_lt unwrapped]
    have unused : ¬h'.get .free (h.start + span hdr pre) ≠ 0 := by rw [flag, free]; simp
    have rest : sub64 g hdr = g - hdr := sub64_of_le (by omega)
    simp only [if_neg unused, behind, rest]
    refine ⟨_, pre ++ [c], _, rfl, grow, rfl, le_rfl,
      grown_repr repr mapped unwrapped small paged room ?globals grow ?headers, ?globals, fun x clear => ?bytes⟩
    case globals =>
      exact (sameGlobals_set ..).set.set.set.set
    case headers =>
      rw [List.append_assoc]
      refine seg_append.mpr ⟨front.congr fun x d member => ?_, ?_, ?_, trivial⟩
      · have bounds := placed_bounds member
        simp (disch := omega) only [view_set_apart]
      · simp (disch := omega) only [view_set_next, view_set_apart, last]
        rw [link, if_neg (by omega), ← total]
      · rw [← total]
        simp (disch := omega) only [view_set_next, view_set_prev, view_set_free, view_set_payloadSize,
          view_set_apart]
        rw [link, if_pos (by omega)]
        simp
    case bytes =>
      have new := clear.here
      have old := (clear_append.mp clear).1.here
      rw [set_mem _ _ _ old, set_mem _ _ _ new, set_mem _ _ _ new, set_mem _ _ _ new, set_mem _ _ _ new]

end

end Extend

theorem expandPages_spec (small : minSize ≤ 2 ^ 33) : pageSize ≤ expandPages minSize * pageSize ∧
    minSize ≤ expandPages minSize * pageSize ∧
      expandPages minSize * pageSize ≤ minSize + pageSize := by
  have page : pageSize = 4096 := rfl
  have least : heapExpandPages = 1 := rfl
  have sum : sub64 (u64 (minSize + pageSize)) 1 / pageSize = (minSize + 4095) / 4096 := by
    rw [u64_of_lt (by omega), sub64_of_le (by omega)]
    rfl
  unfold expandPages
  simp only [sum, least]
  rw [page]
  split <;> omega

section

variable (repr : h.Repr cells) (source : PageSource σ)
include repr source

/-- `expand_heap` fails only with the page source. Otherwise the last block of the list is then a
free one with room for the request. -/
theorem Repr.expandHeap
    (unwrapped : h.start + span hdr cells < 2 ^ 64) (small : minSize ≤ 2 ^ 33) :
    (∃ stop, source.mapPages h.pages h.heapEnd (expandPages minSize) = .error stop ∧
      h.expandHeap source minSize = .error stop) ∨
    ∃ h' front d, h.expandHeap source minSize = .ok (h', h.start + span hdr front) ∧
      Grown hdr (expandPages minSize * pageSize) cells (front ++ [d]) ∧ d.free = true ∧
      minSize - hdr ≤ d.payload ∧ h'.Repr (front ++ [d]) ∧ h'.start = h.start ∧
      ∀ x, h.start ≤ x → x < h.heapEnd → Clear hdr h.start (front ++ [d]) x → h'.mem x = h.mem x := by
  have size : hdr = 32 := rfl
  have page : pageSize = 4096 := rfl
  obtain ⟨pre, c, rfl⟩ := (List.eq_nil_or_concat' cells).resolve_left repr.nonempty
  obtain ⟨one, enough, most⟩ := expandPages_spec small
  have ends : h.blockEnd (h.start + span hdr pre) = h.heapEnd := by
    rw [repr.stop, blockEnd, get_payloadSize, repr.view_at]
    simp only [span_append, span_cons, span_nil]
    congr 1
    omega
  have grown : u64 (expandPages minSize * pageSize) = expandPages minSize * pageSize := u64_of_lt (by omega)
  unfold Heap.expandHeap
  simp only [repr.findLastBlock, ok_bind, ends, ne_eq, not_true_eq_false, if_false, grown]
  cases mapped : source.mapPages h.pages h.heapEnd (expandPages minSize) with
  | error stop => exact Or.inl ⟨stop, rfl, rfl⟩
  | ok res =>
    right
    obtain ⟨pages, contents⟩ := res
    obtain ⟨h₁, shown⟩ : ∃ h₁ : Heap σ, h₁ = { h with
        mem := showPages h.mem h.heapEnd (expandPages minSize * pageSize) contents
        pages := pages
        heapEnd := u64 (h.heapEnd + expandPages minSize * pageSize) } := ⟨_, rfl⟩
    have fresh : Mapped h h₁ (expandPages minSize * pageSize) contents := by
      rw [shown]
      exact ⟨rfl, rfl, rfl, rfl⟩
    obtain ⟨h', front, d, extended, grow, free, room, done, globals, same⟩ := fresh.extendList repr unwrapped
      (by omega) (Nat.mul_mod_left _ _) (by omega)
    refine ⟨h', front, d, ?_, grow, free, by omega, done, globals.start.trans fresh.start, fun x low high clear => ?_⟩
    · rw [← extended, shown]
      rfl
    · rw [same x clear, fresh.mem]
      refine showPages_before ?_ ?_ high
      · rw [repr.stop]
        exact (u64_lt _).le
      · have start : h.start = kernelHeap := repr.start
        have base : 2 ^ 34 ≤ kernelHeap := by decide
        omega

omit repr source in
theorem alignUp_spec (pos : 1 ≤ size) (small : size < 2 ^ 32) :
    size ≤ alignUp size ∧ alignUp size ≠ 0 ∧ alignUp size % 16 = 0 ∧ alignUp size ≤ 2 ^ 32 := by
  rw [alignUp_eq (by omega)]
  omega

/-- The list a request for `n` bytes is carved out of: the old one, or the one grown for it when no
free block is large enough. -/
def Supplied (n : Nat) (cells grown : List Cell) : Prop :=
  grown = cells ∨ (∀ c ∈ cells, c.free = true → c.payload < n) ∧
    Grown heapBlockSize (expandPages (heapBlockSize + n) * pageSize) cells grown

/-- `kmalloc` takes the first free block that is large enough, if there is one. -/
theorem Repr.kmalloc_fit (pos : 1 ≤ size) :
    (∃ pre c post, cells = pre ++ c :: post ∧ c.free = true ∧ alignUp size ≤ c.payload ∧
      h.kmalloc source size = .ok ((h.takeBlock (h.start + span hdr pre) (alignUp size)).1,
        u64 (h.start + span hdr pre + hdr))) ∨
    ((∀ c ∈ cells, c.free = true → c.payload < alignUp size) ∧ h.findFreeBlock (alignUp size) = .ok 0) := by
  have start := repr.start_pos
  rcases repr.findFreeBlock (alignUp size) with ⟨pre, c, post, rfl, free, enough, found⟩ | missed
  · left
    refine ⟨pre, c, post, rfl, free, enough, ?_⟩
    have payload : h.get .payloadSize (h.start + span hdr pre) = c.payload := by
      rw [get_payloadSize, repr.view_at]
    unfold Heap.kmalloc
    rw [if_neg (show size ≠ 0 by omega)]
    simp only [pure_bind]
    rw [found, ok_bind, if_neg (by omega), if_neg (by omega), payload, if_neg (by omega)]
    rfl
  · exact Or.inr missed

/-- `kmalloc` fails only with the page source. Otherwise it takes its block out of a free block
that is large enough, in the old list or in the grown one. -/
theorem Repr.kmalloc
    (unwrapped : h.start + span hdr cells < 2 ^ 64) (pos : 1 ≤ size) (small : size < 2 ^ 32) :
    (∃ stop, source.mapPages h.pages h.heapEnd (expandPages (hdr + alignUp size)) = .error stop ∧
      h.kmalloc source size = .error stop) ∨
    ∃ (h₁ : Heap σ) (pre : List Cell) (c : Cell)
      (post : List Cell), Supplied (alignUp size) cells (pre ++ c :: post) ∧ c.free = true ∧
      alignUp size ≤ c.payload ∧ h₁.Repr (pre ++ c :: post) ∧ h₁.start = h.start ∧
      h.kmalloc source size = .ok ((h₁.takeBlock (h.start + span hdr pre) (alignUp size)).1,
        u64 (h.start + span hdr pre + hdr)) ∧
      ∀ x, h.start ≤ x → x < h.heapEnd → Clear hdr h.start (pre ++ c :: post) x → h₁.mem x = h.mem x := by
  have eq32 : hdr = 32 := rfl
  obtain ⟨-, -, -, most⟩ := alignUp_spec pos small
  have start := repr.start_pos
  rcases repr.kmalloc_fit source pos with ⟨pre, c, post, rfl, free, enough, ret⟩ | ⟨none, missed⟩
  · exact Or.inr ⟨h, pre, c, post, Or.inl rfl, free, enough, repr, rfl, ret, fun _ _ _ _ => rfl⟩
  · have sum : u64 (hdr + alignUp size) = hdr + alignUp size := u64_of_lt (by omega)
    have wide : hdr + alignUp size ≤ 2 ^ 33 := by omega
    unfold Heap.kmalloc
    rw [if_neg (show size ≠ 0 by omega)]
    simp only [pure_bind, sum]
    rw [missed, ok_bind, if_pos rfl]
    rcases repr.expandHeap source unwrapped wide with
      ⟨stop, failed, error⟩ | ⟨h₁, front, d, expanded, grow, free, payload, done, same, bytes⟩
    · left
      refine ⟨stop, failed, ?_⟩
      rw [error]
      rfl
    · right
      have whole : h₁.Repr (front ++ d :: []) := done
      have view : h₁.get .payloadSize (h₁.start + span hdr front) = d.payload := by
        rw [get_payloadSize, whole.view_at]
      rw [same] at view
      refine ⟨h₁, front, d, [], Or.inr ⟨none, grow⟩, free, by omega, whole, same, ?_, bytes⟩
      simp only [expanded, ok_bind]
      rw [if_neg (by omega), view, if_neg (by omega)]
      rfl

end

theorem sameGlobals_extendList (h : Heap σ) (last grown : Nat) : SameGlobals h (h.extendList last grown).1 := by
  unfold extendList
  split
  · exact sameGlobals_set _ _ _ _
  · exact (sameGlobals_set ..).set.set.set.set

/-- The pages of a heap after growth by `n` of them. -/
def GrownBy (source : PageSource σ) (n : Nat) (h h' : Heap σ) : Prop :=
  (∃ contents, source.mapPages h.pages h.heapEnd n = .ok (h'.pages, contents)) ∧
    h'.heapEnd = u64 (h.heapEnd + u64 (n * pageSize))

variable {source : PageSource σ}

theorem expandHeap_grownBy {block : Nat}
    (ret : h.expandHeap source minSize = .ok (h', block)) : GrownBy source (expandPages minSize) h h' := by
  unfold expandHeap at ret
  obtain ⟨last, -, ret⟩ := of_bind ret
  split at ret
  · cases ret
  obtain ⟨⟨pages, contents⟩, mapped, res⟩ := of_bind ret
  simp only [pure_eq_ok, Except.ok.injEq] at res
  have globals := sameGlobals_extendList { h with
    mem := showPages h.mem h.heapEnd (u64 (expandPages minSize * pageSize)) contents, pages := pages,
    heapEnd := u64 (h.heapEnd + u64 (expandPages minSize * pageSize)) } last (u64 (expandPages minSize * pageSize))
  rw [res] at globals
  exact ⟨⟨contents, by rw [globals.pages]; exact mapped⟩, globals.heapEnd⟩

theorem taken_sameGlobals {block ptr : Nat}
    (ret : (if ¬h.get .payloadSize block ≥ size then (.error assertFailed : Outcome (Heap σ × Nat))
      else .ok (h.takeBlock block size)) = .ok (h', ptr)) : SameGlobals h h' := by
  split at ret
  · cases ret
  have globals := sameGlobals_takeBlock h block size
  rwa [Except.ok.inj ret] at globals

/-- A `kmalloc` that returns has taken a block of the heap, after growth if there was none. -/
theorem kmalloc_grownBy {ptr : Nat} (ret : h.kmalloc source size = .ok (h', ptr)) :
    (h'.pages = h.pages ∧ h'.heapEnd = h.heapEnd) ∨
      GrownBy source (expandPages (u64 (hdr + alignUp size))) h h' := by
  unfold kmalloc at ret
  split at ret
  · cases ret
    exact Or.inl ⟨rfl, rfl⟩
  obtain ⟨found, -, ret⟩ := of_bind ret
  simp only [Outcome.throw_eq_error, error_bind, pure_eq_ok, ok_bind] at ret
  split at ret
  · obtain ⟨⟨h₁, block⟩, expanded, ret⟩ := of_bind ret
    dsimp only at ret
    split at ret
    · cases ret
    have globals := taken_sameGlobals ret
    obtain ⟨⟨contents, mapped⟩, grown⟩ := expandHeap_grownBy expanded
    exact Or.inr ⟨⟨contents, by rw [globals.pages]; exact mapped⟩, globals.heapEnd.trans grown⟩
  · have globals := taken_sameGlobals ret
    exact Or.inl ⟨globals.pages, globals.heapEnd⟩

theorem heapInit_pages {pages : σ} (started : heapInit source pages mem = .ok h) :
    ∃ contents, source.mapPages pages kernelHeap heapInitialPages = .ok (h.pages, contents) := by
  obtain ⟨⟨pages', contents⟩, mapped, res⟩ := of_bind started
  obtain rfl := Except.ok.inj res
  exact ⟨contents, mapped⟩

theorem heapInit_repr {pages : σ} (started : heapInit source pages mem = .ok h) :
    h.Repr [⟨heapInitialPages * pageSize - hdr, true⟩] := by
  have size : hdr = 32 := rfl
  have four : heapInitialPages * pageSize = 16384 := rfl
  have room : kernelHeap + 16384 < 2 ^ 64 := by decide
  have bytes : u64 (pageSize * heapInitialPages) = 16384 := u64_of_lt (by decide)
  have ends : u64 (kernelHeap + 16384) = kernelHeap + 16384 := u64_of_lt room
  have payload : sub64 (sub64 (kernelHeap + 16384) kernelHeap) hdr = 16384 - hdr := by
    rw [sub64_of_le (Nat.le_add_right _ _), Nat.add_sub_cancel_left, sub64_of_le (by decide)]
  obtain ⟨⟨pages', contents⟩, -, res⟩ := of_bind started
  simp only [bytes, ends, payload, pure_eq_ok, Except.ok.injEq] at res
  generalize shown : ({
    start := kernelHeap
    heapEnd := kernelHeap + 16384
    firstBlock := kernelHeap
    mem := showPages mem kernelHeap (pageSize * heapInitialPages) contents
    pages := pages' } : Heap σ) = base at res
  have start : base.start = kernelHeap := by rw [← shown]
  have first : base.firstBlock = kernelHeap := by rw [← shown]
  have stop : base.heapEnd = kernelHeap + 16384 := by rw [← shown]
  simp only [set_firstBlock, first] at res
  have view : h.view kernelHeap = ⟨16384 - hdr, 0, 0, true⟩ := by
    rw [← res, view_set_prev _ _ (by decide), view_set_next _ _ (by decide),
      view_set_free _ _ (by decide), view_set_payloadSize _ _ (by decide)]
    rfl
  have globals : SameGlobals base h := by
    rw [← res]
    exact (sameGlobals_set ..).set.set.set
  have place : h.start = kernelHeap := globals.start.trans start
  have total : span hdr [⟨16384 - hdr, true⟩] = 16384 := by
    rw [span_cons, span_nil]
    rfl
  rw [four]
  refine ⟨place, ?_, List.cons_ne_nil _ _, ?_, ?_, ?_, ⟨?_, trivial⟩, ?_, ?_⟩
  · rw [globals.firstBlock, first, place]
  · rw [globals.heapEnd, stop, place, total, ends]
  · rw [total]
    decide
  · rw [total]
    rfl
  · rw [place, view, total, link, if_pos (by dsimp only; omega)]
  · intro c member
    rw [List.mem_singleton.mp member]
    decide
  · intro x c member
    rw [place] at member
    cases List.mem_singleton.mp member
    decide

end Heap
end Xos.Memory
