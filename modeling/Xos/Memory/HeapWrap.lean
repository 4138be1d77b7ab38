import Mathlib.Data.List.Dedup
import Xos.Memory.HeapRuns

/-!
# Where the end of the heap wraps around

From `KERNEL_HEAP` to the end of the address space there are 24576 times 4 GiB. As many requests of 4 GiB move the
header of the free rest to address 0.
-/
namespace Xos.Memory

open Word Lib Lib.BlockList Relation
open Memory renaming heapBlockSize → hdr

def bigSize : Nat := 2 ^ 32 - 32

def bigCell : Cell := ⟨bigSize, false⟩

def restSize : Nat := 16352

/-- The list after `k` such requests: the free rest stays behind them. -/
def bigCells (k : Nat) : List Cell := List.replicate k bigCell ++ [⟨restSize, true⟩]

theorem span_replicate (k : Nat) : span hdr (List.replicate k bigCell) = k * 2 ^ 32 := by
  have eq32 : hdr = 32 := rfl
  have size : bigCell.payload = 2 ^ 32 - 32 := rfl
  induction k with
  | zero => rfl
  | succ k ih =>
    rw [List.replicate_succ, span_cons, ih]
    omega

theorem alignUp_big : alignUp bigSize = bigSize := by
  rw [Heap.alignUp_eq (by decide)]
  decide

theorem expandPages_big : Heap.expandPages (hdr + alignUp bigSize) * pageSize = 2 ^ 32 := by
  have whole : hdr + alignUp bigSize = 2 ^ 32 := by
    rw [alignUp_big]
    decide
  rw [whole]
  unfold Heap.expandPages
  rw [u64_of_lt (by decide), sub64_of_le (by decide)]
  decide

variable {k : Nat} {h : Heap Unit} {live : Nat → Option Nat}

theorem used_of_mem_replicate {c : Cell} (mem : c ∈ List.replicate k bigCell) : c.free = false := by
  rw [List.eq_of_mem_replicate mem]
  rfl

theorem split_at_free {pre post front : List Cell} {c d : Cell} (same : pre ++ c :: post = front ++ [d])
    (used : ∀ e ∈ front, e.free = false) (free : c.free = true) : pre = front ∧ c = d ∧ post = [] := by
  rcases List.eq_nil_or_concat' post with rfl | ⟨rest, e, rfl⟩
  · obtain ⟨rfl, rfl⟩ := List.append_singleton_inj.mp same
    exact ⟨rfl, rfl, rfl⟩
  · have inside : pre ++ c :: rest ++ [e] = front ++ [d] := by simpa using same
    obtain ⟨rfl, -⟩ := List.append_singleton_inj.mp inside
    rw [used c (by simp)] at free
    cases free

/-- A big request finds no block, grows the heap by 4 GiB into the rest, and takes its block there. -/
theorem kmalloc_big (repr : h.Repr (bigCells k)) (unwrapped : h.start + span hdr (bigCells k) < 2 ^ 64) :
    ∃ h₁ : Heap Unit, Heap.Supplied bigSize (bigCells k)
        (List.replicate k bigCell ++ ⟨restSize + 2 ^ 32, true⟩ :: []) ∧
      h₁.Repr (List.replicate k bigCell ++ ⟨restSize + 2 ^ 32, true⟩ :: []) ∧ h₁.start = h.start ∧
      h.kmalloc freshPages bigSize =
        .ok ((h₁.takeBlock (h.start + k * 2 ^ 32) bigSize).1, u64 (h.start + k * 2 ^ 32 + hdr)) := by
  rcases repr.kmalloc freshPages unwrapped (show 1 ≤ bigSize by decide) (by decide) with
    ⟨stop, failed, -⟩ | ⟨h₁, pre, c, post, supplied, free, enough, repr₁, start, ret, -⟩
  · cases failed
  rw [alignUp_big] at supplied enough ret
  have shape : pre ++ c :: post = List.replicate k bigCell ++ [⟨restSize + 2 ^ 32, true⟩] := by
    rcases supplied with old | ⟨-, front, e, same, ⟨-, grown⟩ | ⟨used, -⟩⟩
    · -- no block of the old list is free and large enough
      obtain ⟨-, rfl, -⟩ := split_at_free old (fun e mem => used_of_mem_replicate mem) free
      exact absurd enough (by decide)
    · obtain ⟨rfl, rfl⟩ := List.append_singleton_inj.mp same
      rw [← alignUp_big, expandPages_big] at grown
      exact grown
    · obtain ⟨-, rfl⟩ := List.append_singleton_inj.mp same
      cases used
  obtain ⟨rfl, rfl, rfl⟩ := split_at_free shape (fun e mem => used_of_mem_replicate mem) free
  rw [span_replicate] at ret
  exact ⟨h₁, supplied, repr₁, start, ret⟩

theorem carve_big : carve hdr heapBlockMinSize bigSize ⟨restSize + 2 ^ 32, true⟩ = [bigCell, ⟨restSize, true⟩] := by
  rw [Heap.heapBlockMinSize_eq]
  decide

theorem span_bigCells (k : Nat) : span hdr (bigCells k) = k * 2 ^ 32 + 16384 := by
  rw [bigCells, span_append, span_replicate]
  rfl

/-- As long as the header of the rest fits below the end of the address space, a big request moves
the rest by 4 GiB. -/
theorem big_step (described : HeapLedger.Described ⟨h, live⟩ (bigCells k)) (room : kernelHeap + (k + 1) * 2 ^ 32 + 32 ≤ 2 ^ 64) :
    ∃ h' live', HeapStep freshPages ⟨h, live⟩ ⟨h', live'⟩ ∧
      HeapLedger.Described ⟨h', live'⟩ (bigCells (k + 1)) := by
  have eq32 : hdr = 32 := rfl
  have size : bigSize = 2 ^ 32 - 32 := rfl
  have repr : h.Repr (bigCells k) := described.repr
  have base : h.start = kernelHeap := repr.start
  have total := span_bigCells k
  obtain ⟨h₁, supplied, repr₁, start, ret⟩ := kmalloc_big repr (by omega)
  rw [u64_of_lt (by omega)] at ret
  have carving := repr₁.takeBlock (n := bigSize) (by decide) (by decide) (by decide) (by
    rw [start, span_replicate]
    omega)
  rw [start, span_replicate] at carving
  have globals := Heap.sameGlobals_takeBlock h₁ (h.start + k * 2 ^ 32) bigSize
  obtain ⟨-, done, -⟩ := described.carve (globals.start.trans start) supplied rfl (by decide)
    (show bigSize ≤ bigSize from le_rfl) carving
  rw [span_replicate, carve_big] at done
  have shape : List.replicate k bigCell ++ ([bigCell, ⟨restSize, true⟩] ++ []) = bigCells (k + 1) := by
    rw [bigCells, List.replicate_succ']
    simp
  exact ⟨_, _, .malloc (by decide) (by decide) ret, shape ▸ done⟩

theorem big_run (k : Nat) (room : kernelHeap + k * 2 ^ 32 + 32 ≤ 2 ^ 64) : ∃ h l, heapInit freshPages () (fun _ => 0#8) = .ok h ∧
      ReflTransGen (HeapStep freshPages) ⟨h, fun _ => none⟩ l ∧ l.Described (bigCells k) := by
  induction k with
  | zero =>
    obtain ⟨h, started⟩ : ∃ h, heapInit freshPages () (fun _ => 0#8) = .ok h := ⟨_, rfl⟩
    exact ⟨h, _, started, .refl, (HeapLedger.Sound.start started).toDescribed⟩
  | succ k ih =>
    have fewer : k * 2 ^ 32 ≤ (k + 1) * 2 ^ 32 := Nat.mul_le_mul_right _ (Nat.le_succ k)
    have before := (Nat.add_le_add_right (Nat.add_le_add_left fewer kernelHeap) 32).trans room
    obtain ⟨h, ⟨h', live⟩, started, run, described⟩ := ih before
    obtain ⟨h'', live', step, described'⟩ := big_step described room
    exact ⟨h, _, started, run.tail step, described'⟩

/-- A split whose new header would be at 2^64 puts it at 0. The link to it is null, and the headers
above it are untouched. -/
theorem takeBlock_wrapped (h : Heap Unit) {b n : Nat} (wraps : b + hdr + n = 2 ^ 64)
    (last : (h.view b).next = 0) (small : n ≤ 2 ^ 32) (wide : n + heapBlockMinSize ≤ (h.view b).payload) :
    (h.takeBlock b n).1.view b = ⟨n, 0, (h.view b).prev, false⟩ ∧
      ∀ x, hdr ≤ x → x + hdr ≤ b → (h.takeBlock b n).1.view x = h.view x := by
  have size : hdr = 32 := rfl
  have least := Heap.heapBlockMinSize_eq
  have bound : n < 2 ^ 64 := by omega
  have sum : u64 (n + heapBlockMinSize) = n + heapBlockMinSize := u64_of_lt (by omega)
  have ends : (h.set .payloadSize b n).blockEnd b = 0 := by
    rw [Heap.blockEnd, Heap.get_payloadSize, Heap.view_set_payloadSize h b bound]
    rw [wraps, u64_sub_of_le le_rfl (by decide), Nat.sub_self]
  have next : (h.set .payloadSize b n).get .next b = 0 := by
    rw [Heap.get_set_of_ne h .payloadSize .next b n (by decide), Heap.get_next, last]
  have copied : ((h.set .payloadSize b n).set .next 0 0).get .next 0 = 0 := by
    rw [Heap.get_next, Heap.view_set_next _ _ (by decide)]
  unfold Heap.takeBlock
  simp only [Heap.get_payloadSize, sum, ge_iff_le, if_pos wide]
  unfold Heap.splitBlock
  simp only [ends, next, copied]
  generalize sub64 _ _ = rest
  refine ⟨?_, fun x above below => ?_⟩
  · simp (disch := omega) only [Heap.view_set_free, Heap.view_set_next, Heap.view_set_apart, Heap.linkBack_apart,
      Heap.view_set_payloadSize]
    simp
  · simp (disch := omega) only [Heap.view_set_apart, Heap.linkBack_apart]

/-- The list that the wrapped split leaves behind: its last block reaches the end of the address
space, and nothing links to the rest. -/
theorem repr_wrapped {h' : Heap Unit} (room : kernelHeap + k * 2 ^ 32 + 2 ^ 32 = 2 ^ 64)
    (repr : h.Repr (List.replicate k bigCell ++ [⟨restSize + 2 ^ 32, true⟩])) (globals : h.SameGlobals h')
    (atBlock : h'.view (kernelHeap + k * 2 ^ 32) =
      ⟨bigSize, 0, (h.view (kernelHeap + k * 2 ^ 32)).prev, false⟩)
    (elsewhere : ∀ x, hdr ≤ x → x + hdr ≤ kernelHeap + k * 2 ^ 32 → h'.view x = h.view x) :
    { h' with heapEnd := 0 : Heap Unit }.Repr (List.replicate (k + 1) bigCell) := by
  have eq32 : hdr = 32 := rfl
  have high : 2 ^ 32 ≤ kernelHeap := by decide
  have base : h.start = kernelHeap := repr.start
  have base' : h'.start = kernelHeap := globals.start.trans base
  have view := repr.view_at
  rw [base, span_replicate] at view
  rw [view] at atBlock
  have total : span hdr (List.replicate (k + 1) bigCell) = (k + 1) * 2 ^ 32 := span_replicate _
  rw [Nat.succ_mul] at total
  have before := (seg_append.mp repr.seg).1
  have old : span hdr (List.replicate k bigCell ++ [⟨restSize + 2 ^ 32, true⟩]) =
      k * 2 ^ 32 + (hdr + (restSize + 2 ^ 32)) := by
    rw [span_append, span_cons, span_replicate, span_nil, Nat.add_zero]
  refine ⟨base', globals.firstBlock.trans (repr.first.trans globals.start.symm), by simp, ?_, by omega, ?_, ?_, ?_, ?_⟩
  · show 0 = u64 (h'.start + _)
    rw [base', total, ← Nat.add_assoc, room, u64_sub_of_le le_rfl (by decide), Nat.sub_self]
  · rw [total, ← Nat.succ_mul]
    show (k + 1) * (1048576 * 4096) % 4096 = 0
    rw [← Nat.mul_assoc, Nat.mul_mod_left]
  · show Seg hdr h'.view (h'.start + _) 0 h'.start _
    rw [total, base', List.replicate_succ', seg_append, span_replicate]
    rw [base, old] at before
    have shorter := span_replicate k
    refine ⟨(before.relink (by omega) (by omega)).congr ?_, ?_, trivial⟩
    · intro x c mem
      have bounds := placed_bounds mem
      rw [span_replicate] at bounds
      exact elsewhere x (by omega) (by omega)
    · have size : hdr + bigCell.payload = 2 ^ 32 := rfl
      simp only [atBlock, size, Nat.add_assoc, link, if_true]
      exact Header.mk.injEq .. |>.mpr ⟨rfl, rfl, rfl, rfl⟩
  · intro c mem
    rw [List.eq_of_mem_replicate mem]
    decide
  · intro x c mem
    have bounds := placed_bounds mem
    rw [total, show ({ h' with heapEnd := 0 } : Heap Unit).start = kernelHeap from base'] at bounds
    omega

theorem usedAt_wrapped (k x m : Nat) : UsedAt hdr kernelHeap (List.replicate (k + 1) bigCell) x m ↔
      UsedAt hdr kernelHeap (bigCells k) x m ∨ x = kernelHeap + k * 2 ^ 32 ∧ m = bigSize := by
  rw [List.replicate_succ', bigCells, usedAt_append, usedAt_append, usedAt_cons, usedAt_cons_free rfl,
    span_replicate]
  simp only [not_usedAt_nil, or_false, bigCell, Cell.mk.injEq, and_true, eq_comm]

theorem described_with_end {cells : List Cell} {stop : Nat}
    (tracks : Tracks live h.start cells) (repr : ({ h with heapEnd := stop } : Heap Unit).Repr cells)
    (spaced : Spaced cells) : HeapLedger.Described ⟨{ h with heapEnd := stop }, live⟩ cells :=
  ⟨tracks, repr, spaced⟩

/-- After the last big request the links describe blocks that fill the address space to its end,
although the heap is recorded to end 16 KiB behind that. -/
theorem last_big_step (count : kernelHeap + (k + 1) * 2 ^ 32 = 2 ^ 64) :
    ∃ (h h' : Heap Unit) (live : Nat → Option Nat), heapInit freshPages () (fun _ => 0#8) = .ok h ∧
    ReflTransGen (HeapStep freshPages) ⟨h, fun _ => none⟩ ⟨h', live⟩ ∧ h'.heapEnd = 16384 ∧
    HeapLedger.Described ⟨{ h' with heapEnd := 0 }, live⟩ (List.replicate (k + 1) bigCell) := by
  have eq32 : hdr = 32 := rfl
  have size : bigSize = 2 ^ 32 - 32 := rfl
  have rest : restSize = 16352 := rfl
  have room : kernelHeap + k * 2 ^ 32 + 2 ^ 32 = 2 ^ 64 := by
    rw [← count, Nat.succ_mul, Nat.add_assoc]
  obtain ⟨h, ⟨h', live⟩, started, run, described⟩ := big_run k (by omega)
  have repr : h'.Repr (bigCells k) := described.repr
  have base : h'.start = kernelHeap := repr.start
  have total := span_bigCells k
  obtain ⟨h₁, supplied, repr₁, start, ret⟩ := kmalloc_big repr (by omega)
  have view := repr₁.view_at
  rw [start, span_replicate, base] at view
  rw [base] at ret start
  have wraps : kernelHeap + k * 2 ^ 32 + hdr + bigSize = 2 ^ 64 := by omega
  have wide : bigSize + heapBlockMinSize ≤ (h₁.view (kernelHeap + k * 2 ^ 32)).payload := by
    rw [view, Heap.heapBlockMinSize_eq]
    exact show bigSize + 48 ≤ restSize + 2 ^ 32 by decide
  obtain ⟨atBlock, elsewhere⟩ := takeBlock_wrapped h₁ wraps (by rw [view]; rfl) (by decide) wide
  have globals := Heap.sameGlobals_takeBlock h₁ (kernelHeap + k * 2 ^ 32) bigSize
  rw [u64_of_lt (by omega)] at ret
  generalize (h₁.takeBlock (kernelHeap + k * 2 ^ 32) bigSize).1 = h'' at *
  have step := run.tail (.malloc (show 1 ≤ bigSize by decide) (by decide) ret)
  have stop : h''.heapEnd = 16384 := by
    rw [globals.heapEnd, repr₁.stop, start, span_append, span_cons, span_replicate, span_nil]
    dsimp only
    rw [u64_sub_of_le (by omega) (by omega)]
    omega
  have start' : h''.start = kernelHeap := globals.start.trans start
  have tracks : Tracks (Function.update live (kernelHeap + k * 2 ^ 32 + hdr) (some bigSize)) h''.start
      (List.replicate (k + 1) bigCell) := by
    rw [start']
    exact (base ▸ described.toTracks).insert (le_refl bigSize) (usedAt_wrapped k)
  generalize Function.update live _ _ = live' at step tracks
  have spaced : Spaced (List.replicate (k + 1) bigCell) := List.isChain_replicate_of_rel _ (by simp [bigCell])
  exact ⟨h, h'', live', started, step, stop,
    described_with_end tracks (repr_wrapped room repr₁ globals atBlock elsewhere) spaced⟩

/-- Whatever blocks tile a heap, following the links leads to the last block, and that block ends
where the heap does. -/
theorem tilesFrom_last {blocks : List Nat} {prev a : Nat} {pre : List Cell} {c : Cell} (tiles : h.TilesFrom prev a blocks)
    (seg : Seg hdr h.view (a + span hdr (pre ++ [c])) prev a (pre ++ [c])) :
    h.blockEnd (a + span hdr pre) = h.heapEnd := by
  induction pre generalizing blocks prev a with
  | nil =>
    have next : h.get .next a = 0 := by simp [Heap.get_next, seg.1, link]
    rcases blocks with _ | ⟨b, _ | ⟨q, blocks⟩⟩
    · exact tiles.elim
    · obtain ⟨rfl, -, -, ends⟩ := tiles
      exact ends
    · obtain ⟨rfl, -, here, more, -⟩ := tiles
      exact absurd (here.symm.trans next) more
  | cons d pre ih =>
    have total : a + span hdr (d :: pre ++ [c]) =
        a + (hdr + d.payload) + span hdr (pre ++ [c]) := by
      rw [List.cons_append, span_cons]
      omega
    rw [total, List.cons_append] at seg
    have next : h.get .next a = a + (hdr + d.payload) := by
      rw [Heap.get_next, seg.1, link_eq (by decide), if_neg (by simp)]
    have nonzero : 0 < a + (hdr + d.payload) := by
      have size : hdr = 32 := rfl
      omega
    rcases blocks with _ | ⟨b, _ | ⟨q, blocks⟩⟩
    · exact tiles.elim
    · obtain ⟨rfl, -, here, -⟩ := tiles
      exact absurd (next.symm.trans here) nonzero.ne'
    · obtain ⟨rfl, -, here, -, -, rest⟩ := tiles
      rw [next] at here
      subst here
      rw [span_cons, ← Nat.add_assoc]
      exact ih rest seg.2

theorem not_tiled (count : kernelHeap + (k + 1) * 2 ^ 32 = 2 ^ 64) (stop : h.heapEnd = 16384)
    (described : HeapLedger.Described ⟨{ h with heapEnd := 0 }, live⟩ (List.replicate (k + 1) bigCell)) : ¬∃ blocks, h.Tiled blocks := by
  rintro ⟨blocks, tiled⟩
  have repr := described.repr
  rw [List.replicate_succ'] at repr
  have start : h.start = kernelHeap := repr.start
  have payload : h.get .payloadSize (h.start + span hdr (List.replicate k bigCell)) = bigSize := by
    rw [Heap.get_payloadSize]
    exact congrArg Header.payload repr.view_at
  have ends := tilesFrom_last tiled.tiles repr.seg
  rw [Heap.blockEnd, payload, start, span_replicate, stop, Nat.add_assoc, Nat.add_assoc,
    show hdr + bigSize = 2 ^ 32 from rfl, ← Nat.succ_mul, count, u64_sub_of_le le_rfl (by decide)] at ends
  cases ends

theorem big_count : kernelHeap + (24575 + 1) * 2 ^ 32 = 2 ^ 64 := by decide

/-- After 24576 requests of 4 GiB less a header, no list of blocks tiles the heap. -/
theorem big_requests_untiled : ∃ (h : Heap Unit) (l : HeapLedger Unit),
    heapInit freshPages () (fun _ => 0#8) = .ok h ∧
    ReflTransGen (HeapStep freshPages) ⟨h, fun _ => none⟩ l ∧ ¬∃ blocks, l.heap.Tiled blocks := by
  obtain ⟨h, h', live, started, run, stop, described⟩ := last_big_step big_count
  exact ⟨h, _, started, run, not_tiled big_count stop described⟩

def withEnd (stop : Nat) (h : Heap Unit) : Heap Unit := { h with heapEnd := stop }

theorem get_withEnd (stop : Nat) (h : Heap Unit) (field : BlockField) (block : Nat) :
    (withEnd stop h).get field block = h.get field block := rfl

theorem set_withEnd (stop : Nat) (h : Heap Unit) (field : BlockField) (block value : Nat) :
    (withEnd stop h).set field block value = withEnd stop (h.set field block value) := rfl

theorem linkBack_withEnd (stop : Nat) (h : Heap Unit) (block prev : Nat) :
    (withEnd stop h).linkBack block prev = withEnd stop (h.linkBack block prev) := by
  rw [Heap.linkBack, Heap.linkBack, set_withEnd, apply_ite (withEnd stop)]

theorem coalesceNext_withEnd (stop : Nat) (h : Heap Unit) (block : Nat) :
    (withEnd stop h).coalesceNext block = withEnd stop (h.coalesceNext block) := by
  simp only [Heap.coalesceNext, get_withEnd, set_withEnd, linkBack_withEnd, apply_ite (withEnd stop)]

theorem coalescePrev_withEnd (stop : Nat) (h : Heap Unit) (block : Nat) :
    (withEnd stop h).coalescePrev block = withEnd stop (h.coalescePrev block) := by
  simp only [Heap.coalescePrev, get_withEnd, set_withEnd, linkBack_withEnd, apply_ite (withEnd stop)]

theorem kfree_withEnd (stop : Nat) (h : Heap Unit) (ptr : Nat) : (withEnd stop h).kfree ptr = withEnd stop (h.kfree ptr) := by
  unfold Heap.kfree
  dsimp only
  rw [set_withEnd, coalesceNext_withEnd, coalescePrev_withEnd]

theorem foldl_kfree_withEnd (stop : Nat) (order : List Nat) (h : Heap Unit) :
    order.foldl Heap.kfree (withEnd stop h) = withEnd stop (order.foldl Heap.kfree h) := by
  induction order generalizing h with
  | nil => rfl
  | cons ptr order ih => rw [List.foldl_cons, List.foldl_cons, kfree_withEnd, ih]

theorem exists_order {l : HeapLedger Unit} {cells : List Cell} (described : l.Described cells) (used : ∀ c ∈ cells, c.free = false) :
    ∃ order : List Nat, order.Nodup ∧ ∀ p, p ∈ order ↔ (l.live p).isSome := by
  refine ⟨((blocksOf l.heap.start cells).map (· + hdr)).dedup, List.nodup_dedup _, fun p => ?_⟩
  rw [List.mem_dedup, List.mem_map]
  constructor
  · rintro ⟨b, mem, rfl⟩
    obtain ⟨c, here⟩ := mem_blocksOf.mp mem
    obtain ⟨pre, post, rfl, -⟩ := placed_split here
    have cell : c = ⟨c.payload, false⟩ := Cell.ext rfl (used c (by simp))
    exact described.counted b c.payload (cell ▸ here)
  · intro held
    obtain ⟨size, held⟩ := Option.isSome_iff_exists.mp held
    obtain ⟨low, n, here, -⟩ := described.owned p size held
    exact ⟨p - hdr, mem_blocksOf.mpr ⟨_, here⟩, Nat.sub_add_cancel low⟩

theorem payload_freed {order : List Nat} (count : kernelHeap + (k + 1) * 2 ^ 32 = 2 ^ 64)
    (described : HeapLedger.Described ⟨withEnd 0 h, live⟩ (List.replicate (k + 1) bigCell))
    (nodup : order.Nodup) (all : ∀ p, p ∈ order ↔ (live p).isSome) :
    (order.foldl Heap.kfree h).get .payloadSize h.start = 2 ^ 64 - kernelHeap - hdr := by
  obtain ⟨start, -, cells, total, freed⟩ := described.freeAll nodup all
  rw [foldl_kfree_withEnd] at freed start
  obtain ⟨c, rfl, -, payload, -⟩ := freed.single
  rw [span_replicate, span_cons, span_nil] at total
  rw [start, get_withEnd] at payload
  rw [show h.start = (withEnd 0 h).start from rfl, payload, ← count]
  omega

theorem not_coalesced (count : kernelHeap + (k + 1) * 2 ^ 32 = 2 ^ 64) : ∃ (h : Heap Unit) (l : HeapLedger Unit) (order : List Nat),
      heapInit freshPages () (fun _ => 0#8) = .ok h ∧
      ReflTransGen (HeapStep freshPages) ⟨h, fun _ => none⟩ l ∧
      order.Nodup ∧ (∀ p, p ∈ order ↔ (l.live p).isSome) ∧
      (order.foldl Heap.kfree l.heap).get .payloadSize l.heap.start ≠
        sub64 (sub64 l.heap.heapEnd l.heap.start) hdr := by
  obtain ⟨h, h', live, started, run, stop, described⟩ := last_big_step count
  obtain ⟨order, nodup, all⟩ := exists_order described fun c mem => used_of_mem_replicate mem
  refine ⟨h, _, order, started, run, nodup, all, ?_⟩
  have start : h'.start = kernelHeap := described.repr.start
  have size : sub64 16384 kernelHeap = 2 ^ 64 - (kernelHeap - 16384) := sub64_of_lt (by decide)
  rw [payload_freed count described nodup all]
  rw [stop, start, size, sub64_of_le (by decide)]
  decide

/-- Once the 24576 blocks have been freed again, the heap is not one free block from its start to
its recorded end. -/
theorem big_requests_uncoalesced : ∃ (h : Heap Unit) (l : HeapLedger Unit) (order : List Nat),
    heapInit freshPages () (fun _ => 0#8) = .ok h ∧
    ReflTransGen (HeapStep freshPages) ⟨h, fun _ => none⟩ l ∧
    order.Nodup ∧ (∀ p, p ∈ order ↔ (l.live p).isSome) ∧
    (order.foldl Heap.kfree l.heap).get .payloadSize l.heap.start ≠
      sub64 (sub64 l.heap.heapEnd l.heap.start) heapBlockSize :=
  not_coalesced big_count

end Xos.Memory
