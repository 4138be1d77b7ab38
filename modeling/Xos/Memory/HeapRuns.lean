import Mathlib.Logic.Function.Basic
import Xos.Lib.Pool
import Xos.Memory.HeapAlloc

/-!
# Runs of the kernel heap

A ledger is the heap with the live pointers and the sizes asked for. The results are about runs in which the end of the
heap does not wrap around.
-/
namespace Xos.Memory

open Word Lib Lib.BlockList Relation Function
open Memory renaming heapBlockSize → hdr

variable {σ : Type}

/-- The blocks follow one another from `a` on, linked both ways, and the last one ends at the end
of the heap. -/
def Heap.TilesFrom (h : Heap σ) : Nat → Nat → List Nat → Prop
  | _, _, [] => False
  | prev, a, [b] => b = a ∧ h.get .prev b = prev ∧ h.get .next b = 0 ∧ h.blockEnd b = h.heapEnd
  | prev, a, b :: c :: rest => b = a ∧ h.get .prev b = prev ∧ h.get .next b = c ∧ c ≠ 0 ∧
      h.blockEnd b = c ∧ h.TilesFrom b c (c :: rest)

structure Heap.Tiled (h : Heap σ) (blocks : List Nat) : Prop where
  first : h.firstBlock = h.start
  tiles : h.TilesFrom 0 h.start blocks
  payloads : ∀ b ∈ blocks, h.get .payloadSize b ≠ 0 ∧ h.get .payloadSize b % 16 = 0

def blocksOf (a : Nat) (cells : List Cell) : List Nat := (placed heapBlockSize a cells).map Prod.fst

variable {cells post pre : List Cell} {live : Nat → Option Nat} {size : Nat}

variable {a : Nat}

theorem mem_blocksOf {x : Nat} : x ∈ blocksOf a cells ↔ ∃ c, (x, c) ∈ placed hdr a cells := by
  simp [blocksOf]

variable {h : Heap σ}

theorem tilesFrom_of_seg {prev : Nat} (nonempty : cells ≠ [])
    (bound : a + span hdr cells < 2 ^ 64) (stop : h.heapEnd = a + span hdr cells)
    (seg : Seg hdr h.view h.heapEnd prev a cells) : h.TilesFrom prev a (blocksOf a cells) := by
  have size : hdr = 32 := rfl
  induction cells generalizing prev a with
  | nil => exact absurd rfl nonempty
  | cons c cells ih =>
    obtain ⟨here, rest⟩ := seg
    rw [span_cons] at bound stop
    have ends : h.blockEnd a = a + (hdr + c.payload) := by
      rw [Heap.blockEnd, Heap.get_payloadSize, here, u64_of_lt (by dsimp only; omega), Nat.add_assoc]
    have back : h.get .prev a = prev := by rw [Heap.get_prev, here]
    cases cells with
    | nil =>
      refine ⟨rfl, back, ?_, ?_⟩
      · rw [Heap.get_next, here, link, if_pos (by rw [stop, span_nil]; omega)]
      · rw [ends, stop, span_nil]
        omega
    | cons d cells =>
      have more := ih (List.cons_ne_nil d cells) (by omega) (by omega) rest
      refine ⟨rfl, back, ?_, by omega, ends, more⟩
      rw [Heap.get_next, here, link, if_neg (by rw [stop, span_cons]; omega)]

theorem Heap.Repr.tiled (repr : h.Repr cells)
    (unwrapped : h.start + span hdr cells < 2 ^ 64) : h.Tiled (blocksOf h.start cells) := by
  have stop : h.heapEnd = h.start + span hdr cells := by rw [repr.stop, u64_of_lt unwrapped]
  refine ⟨repr.first, tilesFrom_of_seg repr.nonempty unwrapped stop (stop ▸ repr.seg), fun b mem => ?_⟩
  obtain ⟨c, placed⟩ := mem_blocksOf.mp mem
  rw [Heap.get_payloadSize, (repr.seg.header placed).1]
  obtain ⟨pre, post, rfl, -⟩ := placed_split placed
  exact repr.payloads c (by simp)

structure HeapLedger (σ : Type) where
  heap : Heap σ
  live : Nat → Option Nat

/-- One `kmalloc` that returns, one `kfree` of a live pointer, or one byte written by the owner of
a live pointer. -/
inductive HeapStep (source : PageSource σ) : HeapLedger σ → HeapLedger σ → Prop
  | malloc {h h' : Heap σ} {live : Nat → Option Nat} {size ptr : Nat} (positive : 1 ≤ size)
      (small : size < 2 ^ 32) (returned : h.kmalloc source size = .ok (h', ptr)) :
      HeapStep source ⟨h, live⟩ ⟨h', update live ptr (some size)⟩
  | free {h : Heap σ} {live : Nat → Option Nat} {size ptr : Nat} (owned : live ptr = some size) :
      HeapStep source ⟨h, live⟩ ⟨h.kfree ptr, update live ptr none⟩
  | write {h : Heap σ} {live : Nat → Option Nat} {size ptr addr : Nat} (byte : BitVec 8)
      (owned : live ptr = some size) (low : ptr ≤ addr) (high : addr < ptr + size) :
      HeapStep source ⟨h, live⟩ ⟨{ h with mem := update h.mem addr byte }, live⟩

def UnwrappedStep (source : PageSource σ) (l l' : HeapLedger σ) : Prop :=
  HeapStep source l l' ∧ l.heap.heapEnd ≤ l'.heap.heapEnd

/-- The cells in use are the live pointers, with payloads of the sizes asked for. -/
structure Tracks (live : Nat → Option Nat) (start : Nat) (cells : List Cell) : Prop where
  owned : ∀ p size, live p = some size → heapBlockSize ≤ p ∧
    ∃ n, UsedAt heapBlockSize start cells (p - heapBlockSize) n ∧ size ≤ n
  counted : ∀ x n, UsedAt heapBlockSize start cells x n → (live (x + heapBlockSize)).isSome

structure HeapLedger.Described (l : HeapLedger σ) (cells : List Cell) : Prop
    extends Tracks l.live l.heap.start cells where
  repr : l.heap.Repr cells
  spaced : Spaced cells

/-- The invariant of runs in which the end of the heap does not wrap around. -/
structure HeapLedger.Sound (l : HeapLedger σ) (cells : List Cell) : Prop extends l.Described cells where
  unwrapped : l.heap.start + span heapBlockSize cells < 2 ^ 64

variable {source : PageSource σ}

theorem HeapLedger.Sound.start {pages : σ} {mem : Bytes}
    (started : heapInit source pages mem = .ok h) :
    HeapLedger.Sound ⟨h, fun _ => none⟩ [⟨heapInitialPages * pageSize - hdr, true⟩] := by
  have repr := Heap.heapInit_repr started
  refine ⟨⟨⟨by simp, fun x n used => ?_⟩, repr, List.isChain_singleton _⟩, ?_⟩
  · rw [usedAt_cons_free rfl] at used
    exact absurd used not_usedAt_nil
  · rw [repr.start]
    decide

def Heap.payloadOf (h : Heap σ) (ptr : Nat) : Nat := h.get .payloadSize (ptr - heapBlockSize)

variable {h' : Heap σ}

section Supplied

variable {n : Nat} {cells grown : List Cell}

section

variable (supplied : Heap.Supplied n cells grown)
include supplied

theorem Heap.Supplied.usedAt {x m : Nat} : UsedAt hdr a grown x m ↔ UsedAt hdr a cells x m := by
  rcases supplied with rfl | ⟨-, grow⟩
  · rfl
  · exact grow.usedAt

theorem Heap.Supplied.freeByte {x : Nat} (free : FreeByte hdr a cells x) : FreeByte hdr a grown x := by
  rcases supplied with rfl | ⟨-, grow⟩
  · exact free
  · exact grow.freeByte free

theorem Heap.Supplied.spaced (spaced : Spaced cells) : Spaced grown := by
  rcases supplied with rfl | ⟨-, grow⟩
  · exact spaced
  · exact grow.spaced spaced

theorem Heap.Supplied.span (small : n ≤ 2 ^ 32) :
    ∃ g, g ≤ 2 ^ 33 ∧ BlockList.span hdr grown = BlockList.span hdr cells + g := by
  have size : hdr = 32 := rfl
  have page : pageSize = 4096 := rfl
  rcases supplied with rfl | ⟨-, grow⟩
  · exact ⟨0, Nat.zero_le _, rfl⟩
  · have request : hdr + n ≤ 2 ^ 33 := by omega
    obtain ⟨one, -, most⟩ := Heap.expandPages_spec request
    exact ⟨_, by omega, grow.span (by omega)⟩

end

/-- If the end of the heap has not gone down, the grown list ends below `2 ^ 64`. -/
theorem Heap.Supplied.unwrapped (supplied : Heap.Supplied n cells grown) (small : n ≤ 2 ^ 32) (repr : h.Repr cells)
    (below : h.start + BlockList.span hdr cells < 2 ^ 64)
    (stop : h'.heapEnd = u64 (h.start + BlockList.span hdr grown)) (up : h.heapEnd ≤ h'.heapEnd) :
    h.start + BlockList.span hdr grown < 2 ^ 64 := by
  obtain ⟨g, bound, total⟩ := supplied.span small
  have oldStop : h.heapEnd = h.start + BlockList.span hdr cells := by rw [repr.stop, u64_of_lt below]
  have base : h.start = kernelHeap := repr.start
  by_contra wrapped
  rw [stop, u64_sub_of_le (by omega) (by omega)] at up
  omega

end Supplied

theorem span_mod (payloads : ∀ c ∈ cells, c.payload ≠ 0 ∧ c.payload % 16 = 0) : span hdr cells % 16 = 0 := by
  have size : hdr = 32 := rfl
  induction cells with
  | nil => rfl
  | cons c cells ih =>
    have rest := ih fun d mem => payloads d (List.mem_cons_of_mem c mem)
    have here := payloads c List.mem_cons_self
    rw [span_cons]
    omega

theorem Heap.Repr.aligned (repr : h.Repr (pre ++ post)) : (h.start + span hdr pre) % 16 = 0 := by
  have front : span hdr pre % 16 = 0 :=
    span_mod fun d mem => repr.payloads d (List.mem_append_left _ mem)
  have start : kernelHeap % 16 = 0 := by decide
  have place := repr.start
  omega

theorem Tracks.insert {start b k : Nat} {cells' : List Cell} (tracks : Tracks live start cells) (fits : size ≤ k)
    (used : ∀ x m, UsedAt hdr start cells' x m ↔
      UsedAt hdr start cells x m ∨ x = b ∧ m = k) :
    Tracks (update live (b + hdr) (some size)) start cells' := by
  refine ⟨fun p asked held => ?_, fun x m use => ?_⟩
  · by_cases here : p = b + hdr
    · subst here
      simp only [update_self, Option.some.injEq] at held
      refine ⟨Nat.le_add_left _ _, k, ?_, by omega⟩
      rw [used, Nat.add_sub_cancel]
      exact Or.inr ⟨rfl, rfl⟩
    · rw [update_of_ne here] at held
      obtain ⟨low, m, old, room⟩ := tracks.owned p asked held
      exact ⟨low, m, (used _ _).mpr (Or.inl old), room⟩
  · by_cases here : x + hdr = b + hdr
    · simp [here]
    · rw [update_of_ne here]
      rcases (used x m).mp use with old | ⟨same, -⟩
      · exact tracks.counted x m old
      · exact absurd (by rw [same]) here

theorem Tracks.remove {start p : Nat} {cells' : List Cell} (tracks : Tracks live start cells) (low : hdr ≤ p)
    (used : ∀ x m, UsedAt hdr start cells' x m ↔
      UsedAt hdr start cells x m ∧ x ≠ p - hdr) :
    Tracks (update live p none) start cells' := by
  refine ⟨fun q asked held => ?_, fun x m use => ?_⟩
  · by_cases same : q = p
    · subst same
      simp at held
    · rw [update_of_ne same] at held
      obtain ⟨below, m, old, room⟩ := tracks.owned q asked held
      exact ⟨below, m, (used _ _).mpr ⟨old, by omega⟩, room⟩
  · obtain ⟨old, differ⟩ := (used x m).mp use
    rw [update_of_ne (by omega)]
    exact tracks.counted x m old

/-- A request carved out of a free block makes its pointer live, and nothing else changes. -/
theorem HeapLedger.Described.carve
    {c : Cell} {n : Nat} (described : HeapLedger.Described ⟨h, live⟩ cells) (start : h'.start = h.start)
    (supplied : Heap.Supplied n cells (pre ++ c :: post)) (free : c.free = true) (enough : n ≤ c.payload) (fits : size ≤ n)
    (repr : h'.Repr (pre ++ (BlockList.carve hdr heapBlockMinSize n c ++ post))) :
    live (h.start + span hdr pre + hdr) = none ∧
    HeapLedger.Described ⟨h', update live (h.start + span hdr pre + hdr) (some size)⟩
      (pre ++ (BlockList.carve hdr heapBlockMinSize n c ++ post)) ∧
    ∀ x m, UsedAt hdr h.start cells x m → UsedAt hdr h.start
      (pre ++ (BlockList.carve hdr heapBlockMinSize n c ++ post)) x m := by
  have wide : hdr ≤ heapBlockMinSize := by
    rw [Heap.heapBlockMinSize_eq]
    decide
  have used (x m : Nat) : UsedAt hdr h.start
      (pre ++ (BlockList.carve hdr heapBlockMinSize n c ++ post)) x m ↔
      UsedAt hdr h.start cells x m ∨
        x = h.start + span hdr pre ∧ m = carved heapBlockMinSize n c := by
    rw [usedAt_carve wide free, supplied.usedAt]
  have fresh : live (h.start + span hdr pre + hdr) = none := by
    by_contra taken
    obtain ⟨old, held⟩ := Option.ne_none_iff_exists'.mp taken
    obtain ⟨-, m, clash, -⟩ := described.owned _ old held
    rw [Nat.add_sub_cancel, ← supplied.usedAt] at clash
    have here : (h.start + span hdr pre, c) ∈ placed hdr h.start (pre ++ c :: post) := by simp
    have same := placed_unique (by decide) here clash
    rw [same] at free
    cases free
  have tracks := described.toTracks.insert (fits.trans (le_carved enough)) used
  rw [← start] at tracks
  exact ⟨fresh, ⟨start ▸ tracks, repr, spaced_carve free (supplied.spaced described.spaced)⟩,
    fun x m old => (used x m).mpr (Or.inl old)⟩

theorem Heap.Repr.payloadOf_carve {c : Cell} {n : Nat}
    (repr : h.Repr (pre ++ (carve hdr heapBlockMinSize n c ++ post))) (free : c.free = true)
    (room : hdr ≤ heapBlockMinSize) :
    h.payloadOf (h.start + span hdr pre + hdr) = carved heapBlockMinSize n c := by
  have used : UsedAt hdr h.start (pre ++ (carve hdr heapBlockMinSize n c ++ post))
      (h.start + span hdr pre + hdr - hdr) (carved heapBlockMinSize n c) := by
    rw [usedAt_carve room free, Nat.add_sub_cancel]
    exact Or.inr ⟨rfl, rfl⟩
  rw [Heap.payloadOf, Heap.get_payloadSize, (repr.seg.header used).1]

variable {ptr : Nat}

/-- What a `kmalloc` that returns without wrapping the heap does to a sound ledger. It writes to
headers only, of the old list or of the new one. -/
theorem HeapLedger.Sound.malloc (sound : HeapLedger.Sound ⟨h, live⟩ cells) (pos : 1 ≤ size)
    (small : size < 2 ^ 32) (ret : h.kmalloc source size = .ok (h', ptr)) (unwrapped : h.heapEnd ≤ h'.heapEnd) :
    ptr % 16 = 0 ∧ live ptr = none ∧ h'.start = h.start ∧ ∃ cells',
      HeapLedger.Sound ⟨h', update live ptr (some size)⟩ cells' ∧
      (∀ x n, UsedAt hdr h.start cells x n → UsedAt hdr h.start cells' x n) ∧
      (∀ x, FreeByte hdr h.start cells x → x < ptr ∨ ptr + h'.payloadOf ptr + hdr ≤ x →
        FreeByte hdr h.start cells' x) ∧
      ∀ x, h.start ≤ x → x < h.heapEnd → Clear hdr h.start cells' x → h'.mem x = h.mem x := by
  have eq32 : hdr = 32 := rfl
  have least := Heap.heapBlockMinSize_eq
  obtain ⟨fits, nonzero, multiple, most⟩ := Heap.alignUp_spec pos small
  have repr : h.Repr cells := sound.repr
  have below : h.start + span hdr cells < 2 ^ 64 := sound.unwrapped
  rcases repr.kmalloc source below pos small with
    ⟨stop, -, failed⟩ | ⟨h₁, pre, c, post, supplied, free, enough, repr₁, same, res, bytes⟩
  · rw [failed] at ret
    cases ret
  rw [res, Except.ok.injEq, Prod.mk.injEq] at ret
  obtain ⟨taken, rfl⟩ := ret
  have globals := Heap.sameGlobals_takeBlock h₁ (h.start + span hdr pre) (alignUp size)
  have carving := repr₁.takeBlock nonzero multiple most
  have written {x : Nat} := repr₁.takeBlock_mem most (x := x)
  rw [same, taken] at carving written
  rw [taken] at globals
  have start : h'.start = h.start := globals.start.trans same
  have stop : h'.heapEnd = u64 (h.start + span hdr (pre ++ c :: post)) := by
    rw [globals.heapEnd, repr₁.stop, same]
  have high : h.start + span hdr (pre ++ c :: post) < 2 ^ 64 :=
    supplied.unwrapped most repr below stop unwrapped
  have total : span hdr (pre ++ c :: post) =
      span hdr pre + (hdr + c.payload + span hdr post) := by
    rw [span_append, span_cons]
  have room (_ : alignUp size + heapBlockMinSize ≤ c.payload) :
      h.start + span hdr pre + hdr + alignUp size + hdr ≤ 2 ^ 64 := by omega
  have repr' := carving room
  obtain ⟨fresh, done, kept⟩ := sound.toDescribed.carve start supplied free enough fits repr'
  have place : u64 (h.start + span hdr pre + hdr) =
      h.start + span hdr pre + hdr := u64_of_lt (by omega)
  have aligned : (h.start + span hdr pre) % 16 = 0 := start ▸ repr'.aligned
  rw [place]
  refine ⟨by omega, fresh, start, _, ⟨done, ?_⟩, kept, fun x old apart => ?_, fun x low below clear => ?_⟩
  · rw [span_append, span_append, span_carve (by omega), start]
    omega
  · rw [← start, repr'.payloadOf_carve free (by omega), start] at apart
    exact freeByte_carve (by omega) (supplied.freeByte old) apart
  · rw [written room clear, bytes x low below (clear_of_carve clear (by omega))]

/-- What a `kfree` of a live pointer does to a described ledger. It writes to headers only, and the
payload becomes free. -/
theorem HeapLedger.Described.free
    (described : HeapLedger.Described ⟨h, live⟩ cells) (held : live ptr = some size) :
    (h.kfree ptr).start = h.start ∧ (h.kfree ptr).heapEnd = h.heapEnd ∧ ∃ cells', span hdr cells' = span hdr cells ∧
      HeapLedger.Described ⟨h.kfree ptr, update live ptr none⟩ cells' ∧
      (∀ x n, x + hdr ≠ ptr → UsedAt hdr h.start cells x n →
        UsedAt hdr h.start cells' x n) ∧
      (∀ x, FreeByte hdr h.start cells x ∨ ptr ≤ x ∧ x < ptr + size → FreeByte hdr h.start cells' x) ∧
      ∀ x, Clear hdr h.start cells x → (h.kfree ptr).mem x = h.mem x := by
  have repr : h.Repr cells := described.repr
  obtain ⟨low, m, here, room⟩ := described.owned ptr size held
  obtain ⟨pre, post, rfl, place⟩ := placed_split here
  change ptr - hdr = h.start + span hdr pre at place
  obtain ⟨cells', released, repr', bytes⟩ := repr.kfree
  have addr : h.start + span hdr pre + hdr = ptr := by omega
  rw [addr] at repr' bytes
  generalize h.kfree ptr = h' at repr' bytes ⊢
  have start : h'.start = h.start := repr'.start.trans repr.start.symm
  have total := released.span
  have used (x n : Nat) : UsedAt hdr h.start cells' x n ↔
      UsedAt hdr h.start (pre ++ ⟨m, false⟩ :: post) x n ∧ x ≠ h.start + span hdr pre :=
    released.usedAt (by decide)
  have tracks := described.toTracks.remove low (place ▸ used)
  refine ⟨start, ?_, cells', total, ⟨start.symm ▸ tracks, repr', released.spaced described.spaced⟩,
    fun x n differ old => (used x n).mpr ⟨old, by omega⟩, fun x freed => released.freeByte ?_, bytes⟩
  · rw [repr'.stop, repr.stop, start, total]
  · rw [freeByte_append, freeByte_cons]
    rcases freed with old | ⟨first, last⟩
    · rw [freeByte_append, freeByte_cons] at old
      rcases old with front | ⟨flag, -⟩ | rear
      · exact Or.inl front
      · cases flag
      · exact Or.inr (Or.inr rear)
    · exact Or.inr (Or.inl ⟨rfl, by omega, by dsimp only; omega⟩)

theorem HeapLedger.Sound.free
    (sound : HeapLedger.Sound ⟨h, live⟩ cells) (held : live ptr = some size) :
    ∃ cells', HeapLedger.Sound ⟨h.kfree ptr, update live ptr none⟩ cells' ∧
      (∀ x, FreeByte hdr h.start cells x ∨ ptr ≤ x ∧ x < ptr + size → FreeByte hdr h.start cells' x) ∧
      ∀ x, Clear hdr h.start cells x → (h.kfree ptr).mem x = h.mem x := by
  have below : h.start + span hdr cells < 2 ^ 64 := sound.unwrapped
  obtain ⟨start, -, cells', total, described, -, freed, bytes⟩ := sound.toDescribed.free held
  generalize h.kfree ptr = h' at start described bytes ⊢
  refine ⟨cells', ⟨described, ?_⟩, freed, bytes⟩
  rw [start, total]
  exact below

theorem HeapLedger.Sound.rewrite {mem' : Bytes}
    (sound : HeapLedger.Sound ⟨h, live⟩ cells) (held : live ptr = some size)
      (agree : ∀ x, x < ptr ∨ ptr + size ≤ x → mem' x = h.mem x) :
    HeapLedger.Sound ⟨{ h with mem := mem' }, live⟩ cells := by
  have repr : h.Repr cells := sound.repr
  obtain ⟨below, n, here, room⟩ := sound.owned ptr size held
  have same (f : BlockField) {x : Nat} {c : Cell} (member : (x, c) ∈ placed hdr h.start cells) :
      ({ h with mem := mem' } : Heap σ).get f x = h.get f x := by
    have inside := f.inside
    apply Bytes.load_congr
    intro y low high
    apply agree
    by_cases own : x = ptr - hdr
    · omega
    · have apart := placed_disjoint member here own
      dsimp only at apart
      omega
  refine ⟨⟨sound.toTracks, ⟨repr.start, repr.first, repr.nonempty, repr.stop, repr.bound, repr.paged, ?_,
    repr.payloads, repr.headers⟩, sound.spaced⟩, sound.unwrapped⟩
  refine repr.seg.congr fun x c member => ?_
  simp only [Heap.view, same _ member]

theorem HeapLedger.Sound.write {addr : Nat}
    (sound : HeapLedger.Sound ⟨h, live⟩ cells) (byte : BitVec 8) (held : live ptr = some size)
    (low : ptr ≤ addr) (high : addr < ptr + size) : HeapLedger.Sound ⟨{ h with mem := update h.mem addr byte }, live⟩ cells :=
  sound.rewrite held fun x outside => update_of_ne (by omega) _ _

variable {l : HeapLedger σ}

theorem HeapLedger.Sound.step {l' : HeapLedger σ}
    (sound : l.Sound cells) (step : UnwrappedStep source l l') : ∃ cells', l'.Sound cells' := by
  obtain ⟨step, unwrapped⟩ := step
  cases step with
  | malloc pos small ret =>
    obtain ⟨-, -, -, cells', sound', -⟩ := sound.malloc pos small ret unwrapped
    exact ⟨cells', sound'⟩
  | free owned =>
    obtain ⟨cells', sound', -⟩ := sound.free owned
    exact ⟨cells', sound'⟩
  | write byte owned low high => exact ⟨cells, sound.write byte owned low high⟩

theorem HeapLedger.Sound.run {pages : σ} {mem : Bytes}
    (started : heapInit source pages mem = .ok h)
    (run : ReflTransGen (UnwrappedStep source) ⟨h, fun _ => none⟩ l) : ∃ cells, l.Sound cells := by
  refine invariant_of_run (fun l => ∃ cells, l.Sound cells) ?_ run ⟨_, HeapLedger.Sound.start started⟩
  rintro a b ⟨cells, sound⟩ step
  exact sound.step step

theorem HeapLedger.Sound.repage
    (sound : HeapLedger.Sound ⟨h, live⟩ cells) (pages : σ) : HeapLedger.Sound ⟨{ h with pages := pages }, live⟩ cells := by
  have repr : h.Repr cells := sound.repr
  exact ⟨⟨sound.toTracks, ⟨repr.start, repr.first, repr.nonempty, repr.stop, repr.bound, repr.paged, repr.seg,
    repr.payloads, repr.headers⟩, sound.spaced⟩, sound.unwrapped⟩

theorem HeapLedger.Sound.live_bounds (sound : l.Sound cells) {p : Nat}
    (held : l.live p = some size) : kernelHeap ≤ p ∧ p < l.heap.heapEnd ∧ p + size ≤ l.heap.heapEnd := by
  have stop : l.heap.heapEnd = l.heap.start + span hdr cells := by rw [sound.repr.stop, u64_of_lt sound.unwrapped]
  have start := sound.repr.start
  obtain ⟨low, n, used, room⟩ := sound.owned p size held
  have bounds := placed_bounds used
  obtain ⟨pre, post, rfl, -⟩ := placed_split used
  have nonzero := (sound.repr.payloads ⟨n, false⟩ (by simp)).1
  dsimp only at bounds nonzero
  omega

/-- The heap is tiled by `blocks`, and the live pointers are aligned and own disjoint payloads of
the sizes they asked for, clear of all headers. -/
structure HeapLedger.Tiles (l : HeapLedger σ) (blocks : List Nat) : Prop where
  tiled : l.heap.Tiled blocks
  block : ∀ p size, l.live p = some size → p - heapBlockSize ∈ blocks ∧
    l.heap.get .free (p - heapBlockSize) = 0
  aligned : ∀ p size, l.live p = some size → p % 16 = 0
  enough : ∀ p size, l.live p = some size → size ≤ l.heap.payloadOf p
  headers : ∀ p size, l.live p = some size → ∀ b ∈ blocks,
    b + heapBlockSize ≤ p ∨ p + l.heap.payloadOf p ≤ b
  disjoint : ∀ p q m n, l.live p = some m → l.live q = some n → p ≠ q →
    p + l.heap.payloadOf p ≤ q ∨ q + l.heap.payloadOf q ≤ p

theorem HeapLedger.Described.payloadOf (described : l.Described cells)
    {p n : Nat} (used : UsedAt hdr l.heap.start cells (p - hdr) n) : l.heap.payloadOf p = n := by
  rw [Heap.payloadOf, Heap.get_payloadSize, (described.repr.seg.header used).1]

theorem HeapLedger.Sound.tiles (sound : l.Sound cells) : l.Tiles (blocksOf l.heap.start cells) := by
  have eq32 : hdr = 32 := rfl
  refine ⟨sound.repr.tiled sound.unwrapped, ?_, ?_, ?_, ?_, ?_⟩
  · intro p size held
    obtain ⟨-, n, used, -⟩ := sound.owned p size held
    refine ⟨mem_blocksOf.mpr ⟨_, used⟩, ?_⟩
    have flag := (sound.repr.seg.header used).2.1
    rw [← Bool.not_eq_true, ← Heap.get_free] at flag
    exact not_not.mp flag
  · intro p size held
    obtain ⟨low, n, used, -⟩ := sound.owned p size held
    obtain ⟨pre, post, rfl, place⟩ := placed_split used
    have aligned := sound.repr.aligned
    omega
  · intro p size held
    obtain ⟨-, n, used, room⟩ := sound.owned p size held
    rw [sound.payloadOf used]
    exact room
  · intro p size held b mem
    obtain ⟨low, n, used, -⟩ := sound.owned p size held
    obtain ⟨c, here⟩ := mem_blocksOf.mp mem
    rw [sound.payloadOf used]
    by_cases same : b = p - hdr
    · omega
    · have apart := placed_disjoint here used same
      dsimp only at apart
      omega
  · intro p q m n held other differ
    obtain ⟨low, i, left, -⟩ := sound.owned p m held
    obtain ⟨low', j, right, -⟩ := sound.owned q n other
    rw [sound.payloadOf left, sound.payloadOf right]
    have apart := placed_disjoint left right (by omega)
    dsimp only at apart
    omega

/-- In every run from `heap_init` in which the end of the heap does not wrap around, the block list
is an exact tiling and the live payloads are disjoint. `kmalloc` fails only with the page source,
and otherwise returns an aligned pointer to a payload that is large enough and was not live. No
operation changes the payload size of another live block. -/
theorem heap_stays_tiled (source : PageSource σ) (pages : σ) (mem : Bytes) (h : Heap σ) (l : HeapLedger σ)
    (started : heapInit source pages mem = .ok h)
    (run : ReflTransGen (UnwrappedStep source) ⟨h, fun _ => none⟩ l) :
    (∃ blocks, l.Tiles blocks) ∧
    (∀ size, 1 ≤ size → size < 2 ^ 32 →
      (∃ stop, source.mapPages l.heap.pages l.heap.heapEnd
          (Heap.expandPages (heapBlockSize + alignUp size)) = .error stop ∧
        l.heap.kmalloc source size = .error stop) ∨
      ∃ h' ptr, l.heap.kmalloc source size = .ok (h', ptr) ∧ (l.heap.heapEnd ≤ h'.heapEnd →
        ptr % 16 = 0 ∧ size ≤ h'.payloadOf ptr ∧ l.live ptr = none ∧
        ∀ q n, l.live q = some n → h'.payloadOf q = l.heap.payloadOf q)) ∧
    (∀ p m, l.live p = some m → ∀ q n, q ≠ p → l.live q = some n →
      (l.heap.kfree p).payloadOf q = l.heap.payloadOf q) := by
  obtain ⟨cells, sound⟩ := HeapLedger.Sound.run started run
  refine ⟨⟨_, sound.tiles⟩, fun size positive small => ?_, fun p m held q n differ other => ?_⟩
  · rcases sound.repr.kmalloc source sound.unwrapped positive small with failed |
      ⟨h₁, pre, c, post, -, -, -, -, -, returned, -⟩
    · exact Or.inl failed
    · generalize (h₁.takeBlock _ _).1 = h' at returned
      generalize u64 _ = ptr at returned
      refine Or.inr ⟨h', ptr, returned, fun unwrapped => ?_⟩
      obtain ⟨aligned, fresh, start, cells', sound', kept, -⟩ := sound.malloc positive small returned unwrapped
      refine ⟨aligned, sound'.tiles.enough _ size (by simp), fresh, fun q n other => ?_⟩
      obtain ⟨-, k, used, -⟩ := sound.owned q n other
      rw [sound.payloadOf used]
      exact sound'.payloadOf (start ▸ kept _ _ used)
  · obtain ⟨start, -, cells', -, described, kept, -⟩ := sound.toDescribed.free held
    obtain ⟨low, k, used, -⟩ := sound.owned q n other
    rw [sound.payloadOf used]
    exact described.payloadOf (start ▸ kept _ _ (by omega) used)

def freshPages : PageSource Unit where
  mapPages _ _ _ := .ok ((), fun _ => 0#8)

theorem hundred_bytes_run : ∃ (h h' : Heap Unit) (ptr : Nat), heapInit freshPages () (fun _ => 0#8) = .ok h ∧
    UnwrappedStep freshPages ⟨h, fun _ => none⟩ ⟨h', update (fun _ => none) ptr (some 100)⟩ := by
  obtain ⟨h, started⟩ : ∃ h, heapInit freshPages () (fun _ => 0#8) = .ok h := ⟨_, rfl⟩
  have fits : alignUp 100 = 112 := by rw [Heap.alignUp_eq (by decide)]
  rcases (Heap.heapInit_repr started).kmalloc_fit freshPages (show 1 ≤ 100 by decide) with
    ⟨pre, c, post, -, -, -, ret⟩ | ⟨none, -⟩
  · have globals := Heap.sameGlobals_takeBlock h (h.start + span hdr pre) (alignUp 100)
    exact ⟨h, _, _, started, .malloc (by decide) (by decide) ret, globals.heapEnd.ge⟩
  · have short := none _ List.mem_cons_self rfl
    rw [fits] at short
    exact absurd short (by decide)

/-- After a request of 100 bytes the heap is tiled. -/
theorem hundred_bytes_tiled : ∃ (h : Heap Unit) (l : HeapLedger Unit) (ptr : Nat),
    heapInit freshPages () (fun _ => 0#8) = .ok h ∧
    ReflTransGen (UnwrappedStep freshPages) ⟨h, fun _ => none⟩ l ∧ l.live ptr = some 100 ∧
    ∃ blocks, l.Tiles blocks := by
  obtain ⟨h, h', ptr, started, step⟩ := hundred_bytes_run
  have run := ReflTransGen.single step
  exact ⟨h, _, ptr, started, run, by simp, (heap_stays_tiled freshPages () _ h _ started run).1⟩

def Heap.NoFreeNeighbours (h : Heap σ) (blocks : List Nat) : Prop :=
  blocks.IsChain fun b c => ¬(h.get .free b ≠ 0 ∧ h.get .free c ≠ 0)

theorem noFreeNeighbours_of_spaced {stop prev : Nat}
    (seg : Seg hdr h.view stop prev a cells) (spaced : Spaced cells) : h.NoFreeNeighbours (blocksOf a cells) := by
  induction cells generalizing prev a with
  | nil => exact List.isChain_nil
  | cons c cells ih =>
    obtain ⟨here, rest⟩ := seg
    cases cells with
    | nil => exact List.isChain_singleton _
    | cons d cells =>
      obtain ⟨apart, spaced⟩ := List.isChain_cons_cons.mp spaced
      refine List.isChain_cons_cons.mpr ⟨?_, ih rest spaced⟩
      rw [Heap.get_free, Heap.get_free, here, rest.1]
      exact apart

theorem exists_placed {c : Cell} (mem : c ∈ cells) : ∃ x, (x, c) ∈ placed hdr a cells := by
  obtain ⟨pre, post, rfl⟩ := List.append_of_mem mem
  exact ⟨a + span hdr pre, by simp⟩

theorem HeapLedger.Described.single (described : HeapLedger.Described ⟨h, fun _ => none⟩ cells) :
    ∃ c, cells = [c] ∧ c.free = true ∧ h.get .payloadSize h.start = c.payload ∧ h.get .free h.start ≠ 0 := by
  have repr : h.Repr cells := described.repr
  have free : ∀ c ∈ cells, c.free = true := by
    intro c mem
    by_contra used
    obtain ⟨x, here⟩ : ∃ x, (x, c) ∈ placed hdr h.start cells := exists_placed mem
    have cell : c = ⟨c.payload, false⟩ := Cell.ext rfl (by simpa using used)
    rw [cell] at here
    have live := described.counted x c.payload here
    cases live
  obtain ⟨c, rfl⟩ := described.spaced.singleton free repr.nonempty
  obtain ⟨view, -⟩ := repr.seg
  refine ⟨c, rfl, free c List.mem_cons_self, ?_, ?_⟩
  · rw [Heap.get_payloadSize, view]
  · rw [Heap.get_free, view]
    exact free c List.mem_cons_self

/-- Freeing all live pointers, in any order, leaves a described heap of the same extent with
nothing live. -/
theorem HeapLedger.Described.freeAll
    (described : HeapLedger.Described ⟨h, live⟩ cells) {order : List Nat} (nodup : order.Nodup)
      (all : ∀ p, p ∈ order ↔ (live p).isSome) :
    (order.foldl Heap.kfree h).start = h.start ∧ (order.foldl Heap.kfree h).heapEnd = h.heapEnd ∧
      ∃ cells', span hdr cells' = span hdr cells ∧
        HeapLedger.Described ⟨order.foldl Heap.kfree h, fun _ => none⟩ cells' := by
  induction order generalizing h live cells with
  | nil =>
    have none : live = fun _ => none := by
      funext p
      have absent := (all p).not.mp List.not_mem_nil
      simpa using absent
    subst none
    exact ⟨rfl, rfl, cells, rfl, described⟩
  | cons p order ih =>
    obtain ⟨size, held⟩ := Option.isSome_iff_exists.mp ((all p).mp List.mem_cons_self)
    obtain ⟨start, stop, cells', total, freed, -⟩ := described.free held
    obtain ⟨fresh, nodup⟩ := List.nodup_cons.mp nodup
    rw [List.foldl_cons]
    obtain ⟨start', stop', cells'', total', rest⟩ := ih freed nodup fun q => by
      by_cases same : q = p
      · subst same
        simp [fresh]
      · have others := all q
        rw [List.mem_cons, or_iff_right same] at others
        rw [others, update_of_ne same]
    exact ⟨start'.trans start, stop'.trans stop, cells'', total'.trans total, rest⟩

/-- In every run from `heap_init` in which the end of the heap does not wrap around, no two
neighbouring blocks are free, and freeing all live pointers in any order leaves one free block
that spans the heap. -/
theorem heap_stays_coalesced (source : PageSource σ) (pages : σ) (mem : Bytes) (h : Heap σ) (l : HeapLedger σ)
    (started : heapInit source pages mem = .ok h)
    (run : ReflTransGen (UnwrappedStep source) ⟨h, fun _ => none⟩ l) :
    (∃ blocks, l.heap.Tiled blocks ∧ l.heap.NoFreeNeighbours blocks) ∧
    ∀ order : List Nat, order.Nodup → (∀ p, p ∈ order ↔ (l.live p).isSome) →
      (order.foldl Heap.kfree l.heap).heapEnd = l.heap.heapEnd ∧
      (order.foldl Heap.kfree l.heap).Tiled [l.heap.start] ∧
      (order.foldl Heap.kfree l.heap).get .free l.heap.start ≠ 0 ∧
      (order.foldl Heap.kfree l.heap).get .payloadSize l.heap.start =
        l.heap.heapEnd - l.heap.start - heapBlockSize := by
  obtain ⟨cells, sound⟩ := HeapLedger.Sound.run started run
  refine ⟨⟨_, sound.tiles.tiled, noFreeNeighbours_of_spaced sound.repr.seg sound.spaced⟩, fun order nodup all => ?_⟩
  obtain ⟨start, stop, cells', total, described⟩ := sound.toDescribed.freeAll nodup all
  generalize order.foldl Heap.kfree l.heap = h' at start stop described ⊢
  have below : l.heap.start + span hdr cells < 2 ^ 64 := sound.unwrapped
  have repr : h'.Repr cells' := described.repr
  obtain ⟨c, rfl, -, payload, free⟩ := described.single
  have tiled := repr.tiled (by rw [start, total]; exact below)
  rw [span_cons, span_nil] at total
  rw [start] at payload free tiled
  refine ⟨stop, tiled, free, ?_⟩
  rw [payload, sound.repr.stop, u64_of_lt below]
  omega

/-- After a request of 100 bytes no two free blocks are neighbours, and freeing the pointer leaves
one free block. -/
theorem hundred_bytes_coalesced : ∃ (h : Heap Unit) (l : HeapLedger Unit) (ptr : Nat),
    heapInit freshPages () (fun _ => 0#8) = .ok h ∧
    ReflTransGen (UnwrappedStep freshPages) ⟨h, fun _ => none⟩ l ∧ l.live ptr = some 100 ∧
    (∃ blocks, l.heap.Tiled blocks ∧ l.heap.NoFreeNeighbours blocks) ∧
    (l.heap.kfree ptr).Tiled [l.heap.start] := by
  obtain ⟨h, h', ptr, started, step⟩ := hundred_bytes_run
  have run := ReflTransGen.single step
  obtain ⟨apart, freed⟩ := heap_stays_coalesced freshPages () _ h _ started run
  have live (p : Nat) : p ∈ [ptr] ↔ (update (fun _ => none) ptr (some 100) p).isSome := by
    by_cases same : p = ptr
    · simp [same]
    · simp [same]
  exact ⟨h, _, ptr, started, run, by simp, apart, (freed [ptr] (by simp) live).2.1⟩

end Xos.Memory
