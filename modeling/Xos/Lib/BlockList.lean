import Mathlib.Data.List.Chain

/-!
# Block lists laid out in memory

A heap is cut into blocks, each a header of `hdr` bytes followed by its payload, and the headers
are doubly linked in the order of their addresses. `cells` is the abstract content of such a
heap: payload sizes and free flags, the addresses being determined by the sizes. `Seg` says that
headers found in memory describe a list of cells.
-/
namespace Xos.Lib

open List

@[ext] structure Cell where
  payload : Nat
  free : Bool
  deriving DecidableEq, Repr

@[ext] structure Header where
  payload : Nat
  next : Nat
  prev : Nat
  free : Bool
  deriving DecidableEq, Repr

namespace BlockList

variable (hdr : Nat)

def span : List Cell → Nat
  | [] => 0
  | c :: rest => hdr + c.payload + span rest

/-- The cells with the addresses of their headers, for a list laid out from `a` on. -/
def placed : Nat → List Cell → List (Nat × Cell)
  | _, [] => []
  | a, c :: rest => (a, c) :: placed (a + (hdr + c.payload)) rest

/-- The address of the last header, or `prev` if there is none. -/
def lastAddr : Nat → Nat → List Cell → Nat
  | prev, _, [] => prev
  | _, a, c :: rest => lastAddr a (a + (hdr + c.payload)) rest

/-- The link to address `x`: null past the end of the list. -/
def link (stop x : Nat) : Nat := if x = stop then 0 else x

/-- The headers `view` from `a` on describe `cells`, in a list that ends at `stop`. -/
def Seg (view : Nat → Header) (stop : Nat) : Nat → Nat → List Cell → Prop
  | _, _, [] => True
  | prev, a, c :: rest =>
    view a = ⟨c.payload, link stop (a + (hdr + c.payload)), prev, c.free⟩ ∧
      Seg view stop a (a + (hdr + c.payload)) rest

variable {hdr} {view view' : Nat → Header} {stop prev a : Nat} {c d : Cell} {cells pre mid post : List Cell}

@[simp] theorem span_nil : span hdr [] = 0 := rfl

@[simp] theorem span_cons : span hdr (c :: cells) = hdr + c.payload + span hdr cells := rfl

@[simp] theorem span_append : span hdr (pre ++ post) = span hdr pre + span hdr post := by
  induction pre with
  | nil => simp
  | cons c pre ih =>
    rw [cons_append, span_cons, ih, span_cons]
    omega

@[simp] theorem placed_nil : placed hdr a [] = [] := rfl

@[simp] theorem placed_cons : placed hdr a (c :: cells) = (a, c) :: placed hdr (a + (hdr + c.payload)) cells := rfl

@[simp] theorem placed_append : placed hdr a (pre ++ post) = placed hdr a pre ++ placed hdr (a + span hdr pre) post := by
  induction pre generalizing a with
  | nil => simp
  | cons c pre ih =>
    rw [cons_append, placed_cons, ih, placed_cons, span_cons, cons_append, Nat.add_assoc a]

@[simp] theorem lastAddr_nil : lastAddr hdr prev a [] = prev := rfl

@[simp] theorem lastAddr_append_singleton : lastAddr hdr prev a (pre ++ [c]) = a + span hdr pre := by
  induction pre generalizing prev a with
  | nil => simp [lastAddr]
  | cons d pre ih => rw [cons_append, lastAddr, ih, span_cons, Nat.add_assoc]

@[simp] theorem seg_nil : Seg hdr view stop prev a [] := trivial

theorem seg_cons : Seg hdr view stop prev a (c :: cells) ↔ view a = ⟨c.payload, link stop (a + (hdr + c.payload)), prev, c.free⟩ ∧
      Seg hdr view stop a (a + (hdr + c.payload)) cells := Iff.rfl

theorem seg_append : Seg hdr view stop prev a (pre ++ post) ↔ Seg hdr view stop prev a pre ∧
    Seg hdr view stop (lastAddr hdr prev a pre) (a + span hdr pre) post := by
  induction pre generalizing prev a with
  | nil => simp
  | cons c pre ih =>
    rw [cons_append, seg_cons, seg_cons, ih, lastAddr, span_cons, Nat.add_assoc a, and_assoc]

variable {x : Nat}

theorem placed_bounds (mem : (x, c) ∈ placed hdr a cells) : a ≤ x ∧ x + (hdr + c.payload) ≤ a + span hdr cells := by
  induction cells generalizing a with
  | nil => cases mem
  | cons d cells ih =>
    rw [span_cons]
    rcases mem_cons.mp mem with here | later
    · cases here
      omega
    · have bounds := ih later
      omega

theorem placed_disjoint {y : Nat} (left : (x, c) ∈ placed hdr a cells) (right : (y, d) ∈ placed hdr a cells) (differ : x ≠ y) :
    x + (hdr + c.payload) ≤ y ∨ y + (hdr + d.payload) ≤ x := by
  induction cells generalizing a with
  | nil => cases left
  | cons e cells ih =>
    rcases mem_cons.mp left with here | later
    · cases here
      rcases mem_cons.mp right with same | after
      · cases same
        exact absurd rfl differ
      · exact Or.inl (placed_bounds after).1
    · rcases mem_cons.mp right with same | after
      · cases same
        exact Or.inr (placed_bounds later).1
      · exact ih later after

theorem placed_unique (pos : 0 < hdr) (left : (x, c) ∈ placed hdr a cells)
    (right : (x, d) ∈ placed hdr a cells) : c = d := by
  induction cells generalizing a with
  | nil => cases left
  | cons e cells ih =>
    rcases mem_cons.mp left with here | later
    · rcases mem_cons.mp right with same | after
      · cases here
        cases same
        rfl
      · cases here
        have bounds := (placed_bounds after).1
        omega
    · rcases mem_cons.mp right with same | after
      · cases same
        have bounds := (placed_bounds later).1
        omega
      · exact ih later after

theorem placed_split (mem : (x, c) ∈ placed hdr a cells) : ∃ pre post, cells = pre ++ c :: post ∧ x = a + span hdr pre := by
  induction cells generalizing a with
  | nil => cases mem
  | cons d cells ih =>
    rcases mem_cons.mp mem with here | later
    · cases here
      exact ⟨[], cells, rfl, rfl⟩
    · obtain ⟨pre, post, rfl, rfl⟩ := ih later
      exact ⟨d :: pre, post, rfl, by rw [span_cons, Nat.add_assoc]⟩

theorem Seg.header (seg : Seg hdr view stop prev a cells) (mem : (x, c) ∈ placed hdr a cells) :
    (view x).payload = c.payload ∧ (view x).free = c.free ∧
      (view x).next = link stop (x + (hdr + c.payload)) := by
  induction cells generalizing prev a with
  | nil => cases mem
  | cons d cells ih =>
    obtain ⟨here, rest⟩ := seg
    rcases mem_cons.mp mem with same | later
    · cases same
      rw [here]
      exact ⟨rfl, rfl, rfl⟩
    · exact ih rest later

theorem Seg.congr (seg : Seg hdr view stop prev a cells) (agree : ∀ x c, (x, c) ∈ placed hdr a cells → view' x = view x) :
    Seg hdr view' stop prev a cells := by
  induction cells generalizing prev a with
  | nil => trivial
  | cons d cells ih =>
    obtain ⟨here, rest⟩ := seg
    refine ⟨(agree a d mem_cons_self).trans here, ih rest fun x c mem => ?_⟩
    exact agree x c (mem_cons_of_mem _ mem)

theorem Seg.relink {stop' : Nat} (seg : Seg hdr view stop prev a cells)
    (before : a + span hdr cells < stop) (before' : a + span hdr cells < stop') : Seg hdr view stop' prev a cells := by
  induction cells generalizing prev a with
  | nil => trivial
  | cons d cells ih =>
    obtain ⟨here, rest⟩ := seg
    rw [span_cons] at before before'
    refine ⟨?_, ih rest (by omega) (by omega)⟩
    rw [here, link, link, if_neg (by omega), if_neg (by omega)]

theorem Seg.reback {prev' : Nat} (seg : Seg hdr view stop prev a (c :: cells)) (head : view' a = { view a with prev := prev' })
    (agree : ∀ x, a + hdr ≤ x → view' x = view x) : Seg hdr view' stop prev' a (c :: cells) := by
  obtain ⟨here, rest⟩ := seg
  refine ⟨by rw [head, here], rest.congr fun x d mem => agree x ?_⟩
  have bounds := (placed_bounds mem).1
  omega

theorem link_eq (pos : 0 < hdr) (x : Nat) : link (x + span hdr post) x = if post = [] then 0 else x := by
  cases post with
  | nil => simp [link]
  | cons c post =>
    rw [link, if_neg (by rw [span_cons]; omega), if_neg (cons_ne_nil c post)]

theorem Seg.edit {mid' : List Cell} (seg : Seg hdr view stop prev a (pre ++ (mid ++ post))) (same : span hdr mid' = span hdr mid)
    (before : ∀ x, x + hdr ≤ a + span hdr pre → view' x = view x)
    (inside : Seg hdr view' stop (lastAddr hdr prev a pre) (a + span hdr pre) mid')
    (back : post ≠ [] → view' (a + span hdr pre + span hdr mid) =
      { view (a + span hdr pre + span hdr mid) with
        prev := lastAddr hdr (lastAddr hdr prev a pre) (a + span hdr pre) mid' })
    (behind : ∀ x, a + span hdr pre + span hdr mid + hdr ≤ x → view' x = view x) :
    Seg hdr view' stop prev a (pre ++ (mid' ++ post)) := by
  rw [seg_append, seg_append] at seg ⊢
  obtain ⟨first, -, last⟩ := seg
  refine ⟨first.congr fun x c mem => before x ?_, inside, ?_⟩
  · have bounds := placed_bounds mem
    omega
  · rw [same]
    cases post with
    | nil => trivial
    | cons c post => exact last.reback (back (cons_ne_nil c post)) behind

/-- A block in use with a payload of `n` bytes has its header at `x`. -/
def UsedAt (hdr a : Nat) (cells : List Cell) (x n : Nat) : Prop := (x, ⟨n, false⟩) ∈ placed hdr a cells

variable {x n : Nat}

theorem usedAt_append : UsedAt hdr a (pre ++ post) x n ↔ UsedAt hdr a pre x n ∨ UsedAt hdr (a + span hdr pre) post x n := by
  rw [UsedAt, placed_append, mem_append, UsedAt, UsedAt]

theorem usedAt_cons : UsedAt hdr a (c :: post) x n ↔ x = a ∧ c = ⟨n, false⟩ ∨ UsedAt hdr (a + (hdr + c.payload)) post x n := by
  rw [UsedAt, placed_cons, mem_cons, Prod.mk.injEq, UsedAt]
  exact or_congr_left (and_congr_right fun _ => eq_comm)

theorem usedAt_cons_free (free : c.free = true) : UsedAt hdr a (c :: post) x n ↔ UsedAt hdr (a + (hdr + c.payload)) post x n := by
  rw [usedAt_cons, or_iff_right]
  rintro ⟨-, rfl⟩
  cases free

@[simp] theorem not_usedAt_nil : ¬UsedAt hdr a [] x n := not_mem_nil

theorem UsedAt.low (used : UsedAt hdr a cells x n) : a ≤ x := (placed_bounds used).1

def Clear (hdr a : Nat) (cells : List Cell) (x : Nat) : Prop :=
  ∀ b c, (b, c) ∈ placed hdr a cells → x < b ∨ b + hdr ≤ x

def FreeByte (hdr a : Nat) (cells : List Cell) (x : Nat) : Prop :=
  ∃ b c, (b, c) ∈ placed hdr a cells ∧ c.free = true ∧ b + hdr ≤ x ∧ x < b + (hdr + c.payload)

section Bytes

theorem clear_append : Clear hdr a (pre ++ post) x ↔ Clear hdr a pre x ∧ Clear hdr (a + span hdr pre) post x := by
  simp only [Clear, placed_append, mem_append, or_imp, forall_and]

theorem clear_cons : Clear hdr a (c :: post) x ↔ (x < a ∨ a + hdr ≤ x) ∧ Clear hdr (a + (hdr + c.payload)) post x := by
  simp only [Clear, placed_cons, mem_cons, or_imp, forall_and, Prod.mk.injEq, and_imp, forall_eq_apply_imp_iff, forall_eq]

@[simp] theorem clear_nil : Clear hdr a [] x := by simp [Clear]

theorem Clear.here (clear : Clear hdr a (pre ++ c :: post) x) : x < a + span hdr pre ∨ a + span hdr pre + hdr ≤ x :=
  (clear_cons.mp (clear_append.mp clear).2).1

theorem clear_of_payload {b : Nat} (mem : (b, c) ∈ placed hdr a cells) (low : b + hdr ≤ x)
    (high : x < b + (hdr + c.payload)) : Clear hdr a cells x := by
  intro y d other
  by_cases same : y = b
  · exact Or.inr (same ▸ low)
  · have apart := placed_disjoint other mem same
    omega

theorem FreeByte.clear (free : FreeByte hdr a cells x) : Clear hdr a cells x := by
  obtain ⟨b, c, mem, -, low, high⟩ := free
  exact clear_of_payload mem low high

theorem freeByte_append : FreeByte hdr a (pre ++ post) x ↔ FreeByte hdr a pre x ∨ FreeByte hdr (a + span hdr pre) post x := by
  simp only [FreeByte, placed_append, mem_append, or_and_right, exists_or]

theorem freeByte_cons : FreeByte hdr a (c :: post) x ↔
    (c.free = true ∧ a + hdr ≤ x ∧ x < a + (hdr + c.payload)) ∨ FreeByte hdr (a + (hdr + c.payload)) post x := by
  simp only [FreeByte, placed_cons, mem_cons, or_and_right, exists_or, Prod.mk.injEq, and_assoc]
  simp only [exists_and_left, exists_eq_left]

@[simp] theorem not_freeByte_nil : ¬FreeByte hdr a [] x := by simp [FreeByte]

theorem FreeByte.not_used {b m : Nat} (free : FreeByte hdr a cells x) (used : UsedAt hdr a cells b m)
    (low : b + hdr ≤ x) (high : x < b + (hdr + m)) (pos : 0 < hdr) : False := by
  obtain ⟨y, c, mem, flag, first, last⟩ := free
  by_cases same : y = b
  · subst same
    have equal := placed_unique pos mem used
    rw [equal] at flag
    cases flag
  · have apart := placed_disjoint mem used same
    dsimp only at apart
    omega

end Bytes

def Spaced (cells : List Cell) : Prop := cells.IsChain fun c d => ¬(c.free = true ∧ d.free = true)

theorem spaced_split : Spaced (pre ++ c :: post) ↔ Spaced pre ∧ Spaced post ∧
    (c.free = true → (∀ d ∈ pre.getLast?, d.free = false) ∧ ∀ d ∈ post.head?, d.free = false) := by
  unfold Spaced
  rw [isChain_append, isChain_cons]
  simp only [head?_cons, Option.mem_some_iff, forall_eq', not_and, Bool.not_eq_true]
  constructor
  · rintro ⟨left, ⟨next, right⟩, prev⟩
    refine ⟨left, right, fun free => ⟨fun d mem => ?_, fun d mem => next d mem free⟩⟩
    by_contra other
    have clash := prev d mem (by simpa using other)
    rw [free] at clash
    cases clash
  · rintro ⟨left, right, both⟩
    refine ⟨left, ⟨fun d mem free => (both free).2 d mem, right⟩, fun d mem free => ?_⟩
    cases flag : c.free with
    | false => rfl
    | true =>
      have clash := (both flag).1 d mem
      rw [free] at clash
      cases clash

theorem Spaced.singleton (spaced : Spaced cells) (free : ∀ c ∈ cells, c.free = true) (nonempty : cells ≠ []) : ∃ c, cells = [c] := by
  obtain ⟨c, rest, rfl⟩ := exists_cons_of_ne_nil nonempty
  cases rest with
  | nil => exact ⟨c, rfl⟩
  | cons d rest =>
    have both := (isChain_cons_cons.mp spaced).1
    exact absurd ⟨free c (by simp), free d (by simp)⟩ both

/-- What becomes of a free block when `n` bytes of it are taken: the rest is split off as a free
block if it has at least `least` bytes, header included. -/
def carve (hdr least n : Nat) (c : Cell) : List Cell :=
  if n + least ≤ c.payload then [⟨n, false⟩, ⟨c.payload - n - hdr, true⟩] else [⟨c.payload, false⟩]

def carved (least n : Nat) (c : Cell) : Nat := if n + least ≤ c.payload then n else c.payload

section Carve

variable {least : Nat}

theorem le_carved (enough : n ≤ c.payload) : n ≤ carved least n c := by
  unfold carved
  split
  · exact le_rfl
  · exact enough

theorem span_carve (wide : hdr ≤ least) : span hdr (carve hdr least n c) = hdr + c.payload := by
  unfold carve
  split
  · simp only [span_cons, span_nil]
    omega
  · simp only [span_cons, span_nil]
    omega

theorem usedAt_carve {m : Nat} (wide : hdr ≤ least) (free : c.free = true) :
    UsedAt hdr a (pre ++ (carve hdr least n c ++ post)) x m ↔
      UsedAt hdr a (pre ++ c :: post) x m ∨ x = a + span hdr pre ∧ m = carved least n c := by
  rw [usedAt_append, usedAt_append, usedAt_append, span_carve wide, usedAt_cons_free free, carve, carved]
  split
  · rw [usedAt_cons, usedAt_cons_free rfl, or_iff_left not_usedAt_nil, Cell.mk.injEq]
    tauto
  · rw [usedAt_cons, or_iff_left not_usedAt_nil, Cell.mk.injEq]
    tauto

theorem spaced_carve (free : c.free = true) (spaced : Spaced (pre ++ c :: post)) :
    Spaced (pre ++ (carve hdr least n c ++ post)) := by
  obtain ⟨left, right, both⟩ := spaced_split.mp spaced
  obtain ⟨-, next⟩ := both free
  unfold carve
  split
  · refine spaced_split.mpr ⟨left, ?_, by simp⟩
    have whole : Spaced ([] ++ (⟨c.payload - n - hdr, true⟩ : Cell) :: post) :=
      spaced_split.mpr ⟨isChain_nil, right, fun _ => ⟨by simp, next⟩⟩
    exact whole
  · exact spaced_split.mpr ⟨left, right, by simp⟩

theorem clear_of_carve (clear : Clear hdr a (pre ++ (carve hdr least n c ++ post)) x) (wide : hdr ≤ least) :
    Clear hdr a (pre ++ c :: post) x := by
  rw [clear_append, clear_append, span_carve wide] at clear
  obtain ⟨front, middle, rear⟩ := clear
  rw [clear_append, clear_cons]
  refine ⟨front, ?_, rear⟩
  unfold carve at middle
  split at middle
  · exact (clear_cons.mp middle).1
  · exact (clear_cons.mp middle).1

theorem freeByte_carve (wide : hdr ≤ least) (free : FreeByte hdr a (pre ++ c :: post) x)
    (apart : x < a + span hdr pre + hdr ∨ a + span hdr pre + hdr + carved least n c + hdr ≤ x) :
    FreeByte hdr a (pre ++ (carve hdr least n c ++ post)) x := by
  rw [freeByte_append, freeByte_cons] at free
  rw [freeByte_append, freeByte_append, span_carve wide]
  rcases free with front | ⟨-, low, high⟩ | rear
  · exact Or.inl front
  · refine Or.inr (Or.inl ?_)
    unfold carve
    unfold carved at apart
    split at apart
    next split =>
      rw [if_pos split, freeByte_cons, freeByte_cons]
      refine Or.inr (Or.inl ⟨rfl, ?_, ?_⟩) <;> dsimp only <;> omega
    next => omega
  · exact Or.inr (Or.inr rear)

end Carve

/-- The cells once `g` bytes have been added behind the list: they extend the last block if it is
free and make a new free block otherwise. -/
def Grown (hdr g : Nat) (cells grown : List Cell) : Prop :=
  ∃ pre c, cells = pre ++ [c] ∧ (c.free = true ∧ grown = pre ++ [⟨c.payload + g, true⟩] ∨
    c.free = false ∧ grown = pre ++ [c, ⟨g - hdr, true⟩])

section Grown

variable {g : Nat} {grown : List Cell}

section

variable (grow : Grown hdr g cells grown)
include grow

theorem Grown.inside_or_behind : (∃ pre c, c.free = true ∧ cells = pre ++ [c] ∧ grown = pre ++ [⟨c.payload + g, true⟩]) ∨
      grown = cells ++ [⟨g - hdr, true⟩] := by
  obtain ⟨pre, c, rfl, ⟨free, rfl⟩ | ⟨-, rfl⟩⟩ := grow
  · exact Or.inl ⟨pre, c, free, rfl, rfl⟩
  · exact Or.inr (by simp)

theorem Grown.span (room : hdr ≤ g) : BlockList.span hdr grown = BlockList.span hdr cells + g := by
  rcases grow.inside_or_behind with ⟨pre, c, -, rfl, rfl⟩ | rfl
  · simp only [span_append, span_cons, span_nil]
    omega
  · simp only [span_append, span_cons, span_nil]
    omega

theorem Grown.usedAt : UsedAt hdr a grown x n ↔ UsedAt hdr a cells x n := by
  rcases grow.inside_or_behind with ⟨pre, c, free, rfl, rfl⟩ | rfl
  · rw [usedAt_append, usedAt_append, usedAt_cons_free rfl, usedAt_cons_free free,
      iff_of_false not_usedAt_nil not_usedAt_nil]
  · rw [usedAt_append, usedAt_cons_free rfl, or_iff_left not_usedAt_nil]

theorem Grown.spaced (spaced : Spaced cells) : Spaced grown := by
  obtain ⟨pre, c, rfl, ⟨free, rfl⟩ | ⟨used, rfl⟩⟩ := grow
  · obtain ⟨left, right, both⟩ := spaced_split.mp spaced
    exact spaced_split.mpr ⟨left, right, fun _ => both free⟩
  · obtain ⟨left, -, -⟩ := spaced_split.mp spaced
    refine spaced_split.mpr ⟨left, isChain_singleton _, fun free => ?_⟩
    rw [used] at free
    cases free

theorem Grown.last : ∃ pre c, grown = pre ++ [c] ∧ c.free = true ∧ g - hdr ≤ c.payload := by
  rcases grow.inside_or_behind with ⟨pre, c, -, -, rfl⟩ | rfl
  · exact ⟨pre, _, rfl, rfl, by dsimp only; omega⟩
  · exact ⟨cells, _, rfl, rfl, le_rfl⟩

theorem Grown.cell (mem : d ∈ grown) : d ∈ cells ∨ (∃ c ∈ cells, d.payload = c.payload + g) ∨ d.payload = g - hdr := by
  rcases grow.inside_or_behind with ⟨pre, c, -, rfl, rfl⟩ | rfl
  · rcases mem_append.mp mem with before | last
    · exact Or.inl (mem_append_left _ before)
    · exact Or.inr (Or.inl ⟨c, by simp, by rw [mem_singleton.mp last]⟩)
  · rcases mem_append.mp mem with old | new
    · exact Or.inl old
    · exact Or.inr (Or.inr (by rw [mem_singleton.mp new]))

theorem Grown.placed (mem : (x, d) ∈ BlockList.placed hdr a grown) :
    (∃ c, (x, c) ∈ BlockList.placed hdr a cells) ∨ x = a + BlockList.span hdr cells := by
  rcases grow.inside_or_behind with ⟨pre, c, -, rfl, rfl⟩ | rfl
  · rw [placed_append] at mem
    rcases mem_append.mp mem with before | last
    · exact Or.inl ⟨d, by rw [placed_append]; exact mem_append_left _ before⟩
    · cases mem_singleton.mp last
      exact Or.inl ⟨c, by rw [placed_append]; simp [BlockList.placed]⟩
  · rw [placed_append] at mem
    rcases mem_append.mp mem with old | new
    · exact Or.inl ⟨d, old⟩
    · cases mem_singleton.mp new
      exact Or.inr rfl

theorem Grown.freeByte (free : FreeByte hdr a cells x) : FreeByte hdr a grown x := by
  rcases grow.inside_or_behind with ⟨pre, c, -, rfl, rfl⟩ | rfl
  · rw [freeByte_append, freeByte_cons] at free
    rw [freeByte_append, freeByte_cons]
    rcases free with front | ⟨-, low, high⟩ | rear
    · exact Or.inl front
    · exact Or.inr (Or.inl ⟨rfl, low, by dsimp only; omega⟩)
    · exact absurd rear not_freeByte_nil
  · rw [freeByte_append]
    exact Or.inl free

end

end Grown

def MergedNext (hdr : Nat) (c : Cell) (post : List Cell) (c' : Cell) (post' : List Cell) : Prop :=
  (c' = c ∧ post' = post ∧ ∀ d ∈ post.head?, d.free = false) ∨
  ∃ d, post = d :: post' ∧ d.free = true ∧ c' = ⟨c.payload + (hdr + d.payload), c.free⟩

def MergedPrev (hdr : Nat) (pre : List Cell) (c : Cell) (pre' : List Cell) (c' : Cell) : Prop :=
  (c' = c ∧ pre' = pre ∧ ∀ d ∈ pre.getLast?, d.free = false) ∨
  ∃ d, pre = pre' ++ [d] ∧ d.free = true ∧ c' = ⟨d.payload + (hdr + c.payload), d.free⟩

/-- The cells after the block `c` between `pre` and `post` has been released. -/
def Released (hdr : Nat) (pre : List Cell) (c : Cell) (post cells' : List Cell) : Prop :=
  ∃ c₁ c₂ pre' post', MergedNext hdr ⟨c.payload, true⟩ post c₁ post' ∧
    MergedPrev hdr pre c₁ pre' c₂ ∧ cells' = pre' ++ c₂ :: post'

section Released

variable {c₁ c₂ : Cell} {pre' post' cells' : List Cell}

section

variable (merged : MergedNext hdr c post c₁ post')
include merged

theorem MergedNext.free : c₁.free = c.free := by
  rcases merged with ⟨rfl, -, -⟩ | ⟨d, -, -, rfl⟩ <;> rfl

theorem MergedNext.span : c₁.payload + span hdr post' = c.payload + span hdr post := by
  rcases merged with ⟨rfl, rfl, -⟩ | ⟨d, rfl, -, rfl⟩
  · rfl
  · rw [span_cons]
    dsimp only
    omega

theorem MergedNext.usedAt (free : c.free = true) : UsedAt hdr a (c₁ :: post') x n ↔ UsedAt hdr a (c :: post) x n := by
  rcases merged with ⟨rfl, rfl, -⟩ | ⟨d, rfl, dfree, rfl⟩
  · rfl
  · rw [usedAt_cons_free free, usedAt_cons_free dfree, usedAt_cons_free (by simpa using free)]
    rw [show a + (hdr + c.payload) + (hdr + d.payload) = a + (hdr + (c.payload + (hdr + d.payload))) by omega]

theorem MergedNext.apart (spaced : Spaced post) : Spaced post' ∧ ∀ d ∈ post'.head?, d.free = false := by
  rcases merged with ⟨-, rfl, next⟩ | ⟨d, rfl, free, -⟩
  · exact ⟨spaced, next⟩
  · have whole : Spaced ([] ++ d :: post') := spaced
    obtain ⟨-, rest, both⟩ := spaced_split.mp whole
    exact ⟨rest, (both free).2⟩

end

section

variable (merged : MergedPrev hdr pre c pre' c₂)
include merged

theorem MergedPrev.span : span hdr pre' + c₂.payload = span hdr pre + c.payload := by
  rcases merged with ⟨rfl, rfl, -⟩ | ⟨d, rfl, -, rfl⟩
  · rfl
  · rw [span_append, span_cons, span_nil]
    dsimp only
    omega

theorem MergedPrev.free (free : c.free = true) : c₂.free = true := by
  rcases merged with ⟨rfl, -, -⟩ | ⟨d, -, dfree, rfl⟩
  · exact free
  · exact dfree

theorem MergedPrev.usedAt : UsedAt hdr a pre' x n ↔ UsedAt hdr a pre x n := by
  rcases merged with ⟨-, rfl, -⟩ | ⟨d, rfl, free, -⟩
  · rfl
  · rw [usedAt_append, usedAt_cons_free free, or_iff_left not_usedAt_nil]

theorem MergedPrev.apart (spaced : Spaced pre) : Spaced pre' ∧ ∀ d ∈ pre'.getLast?, d.free = false := by
  rcases merged with ⟨-, rfl, prev⟩ | ⟨d, rfl, free, -⟩
  · exact ⟨spaced, prev⟩
  · obtain ⟨rest, -, both⟩ := spaced_split.mp spaced
    exact ⟨rest, (both free).1⟩

end

section

variable (released : Released hdr pre c post cells')
include released

theorem Released.span : BlockList.span hdr cells' = BlockList.span hdr (pre ++ c :: post) := by
  obtain ⟨c₁, c₂, pre', post', next, prev, rfl⟩ := released
  have one := next.span
  have two := prev.span
  simp only [span_append, span_cons]
  dsimp only at one
  omega

theorem Released.usedAt (pos : 0 < hdr) :
    UsedAt hdr a cells' x n ↔ UsedAt hdr a (pre ++ c :: post) x n ∧ x ≠ a + BlockList.span hdr pre := by
  obtain ⟨c₁, c₂, pre', post', next, prev, rfl⟩ := released
  have two := prev.span
  have rear : UsedAt hdr (a + BlockList.span hdr pre' + (hdr + c₂.payload)) post' x n ↔
      UsedAt hdr (a + BlockList.span hdr pre + (hdr + c.payload)) post x n := by
    have shift : a + BlockList.span hdr pre' + (hdr + c₂.payload) =
        a + BlockList.span hdr pre + (hdr + c₁.payload) := by omega
    rw [shift, ← usedAt_cons_free next.free, next.usedAt rfl, usedAt_cons_free rfl]
  rw [usedAt_append, usedAt_cons_free (prev.free next.free), rear, prev.usedAt, usedAt_append, usedAt_cons]
  constructor
  · rintro (left | right)
    · have bounds := placed_bounds left
      exact ⟨Or.inl left, by omega⟩
    · have bounds := right.low
      exact ⟨Or.inr (Or.inr right), by omega⟩
  · rintro ⟨left | ⟨here, -⟩ | right, differ⟩
    · exact Or.inl left
    · exact absurd here differ
    · exact Or.inr right

theorem Released.spaced (spaced : Spaced (pre ++ c :: post)) : Spaced cells' := by
  obtain ⟨c₁, c₂, pre', post', next, prev, rfl⟩ := released
  obtain ⟨left, right, -⟩ := spaced_split.mp spaced
  obtain ⟨before, lastUsed⟩ := prev.apart left
  obtain ⟨behind, firstUsed⟩ := next.apart right
  exact spaced_split.mpr ⟨before, behind, fun _ => ⟨lastUsed, firstUsed⟩⟩

end

theorem MergedNext.clear (merged : MergedNext hdr c post c₁ post')
    (clear : Clear hdr a (c :: post) x) : Clear hdr a (c₁ :: post') x := by
  rcases merged with ⟨rfl, rfl, -⟩ | ⟨d, rfl, -, rfl⟩
  · exact clear
  · rw [clear_cons, clear_cons] at clear
    rw [clear_cons]
    obtain ⟨here, -, rear⟩ := clear
    refine ⟨here, ?_⟩
    rwa [show a + (hdr + (c.payload + (hdr + d.payload))) = a + (hdr + c.payload) + (hdr + d.payload) by omega]

theorem MergedNext.freeByte (merged : MergedNext hdr c post c₁ post') (flag : c.free = true)
    (free : FreeByte hdr a (c :: post) x) : FreeByte hdr a (c₁ :: post') x := by
  rcases merged with ⟨rfl, rfl, -⟩ | ⟨d, rfl, -, rfl⟩
  · exact free
  · rw [freeByte_cons, freeByte_cons] at free
    rw [freeByte_cons]
    -- the merged payload covers both payloads and the header between them
    rcases free with ⟨-, low, high⟩ | ⟨-, low, high⟩ | rear
    · exact Or.inl ⟨flag, low, by dsimp only; omega⟩
    · exact Or.inl ⟨flag, by omega, by dsimp only; omega⟩
    · refine Or.inr ?_
      rwa [show a + (hdr + (c.payload + (hdr + d.payload))) = a + (hdr + c.payload) + (hdr + d.payload) by omega]

theorem MergedPrev.freeByte (merged : MergedPrev hdr pre c pre' c₂) (flag : c.free = true)
    (free : FreeByte hdr a (pre ++ c :: post) x) : FreeByte hdr a (pre' ++ c₂ :: post) x := by
  rcases merged with ⟨rfl, rfl, -⟩ | ⟨d, rfl, dfree, rfl⟩
  · exact free
  · have joined : MergedNext hdr d (c :: post) ⟨d.payload + (hdr + c.payload), d.free⟩ post := Or.inr ⟨c, rfl, flag, rfl⟩
    rw [append_assoc, singleton_append, freeByte_append] at free
    rw [freeByte_append]
    exact free.imp_right (joined.freeByte dfree)

theorem Released.freeByte (released : Released hdr pre c post cells')
    (free : FreeByte hdr a (pre ++ ⟨c.payload, true⟩ :: post) x) : FreeByte hdr a cells' x := by
  obtain ⟨c₁, c₂, pre', post', next, prev, rfl⟩ := released
  refine prev.freeByte next.free ?_
  rw [freeByte_append] at free ⊢
  exact free.imp_right (next.freeByte rfl)

end Released

end BlockList
end Xos.Lib
