import Xos.Graphics.Line

/-!
# Copying a part of a surface (`gfx_blit_region` in `gfx.h`)

The requested rectangle is cut to the source in unsigned arithmetic. A rectangle that ends before the source or begins
behind it does not become empty.
-/

namespace Xos.Graphics

/-- Where a row or a column of the copy begins in the destination and in the source, and its length. -/
structure Span where
  d : Int
  s : Int
  n : Nat

/-- `if (s < 0) { d -= s; n += s; s = 0; }` and `if ((uint)s + n > size) n = size - (uint)s;`. -/
def clipSource (size : Nat) (d s : Int) (n : Nat) : Span :=
  let c : Span := if s < 0 then ⟨wrap (d - s), 0, ((n + s) % 2 ^ 32).toNat⟩ else ⟨d, s, n⟩
  if (c.s + c.n) % 2 ^ 32 > size then { c with n := ((size - c.s) % 2 ^ 32).toNat } else c

/-- `col0` and `col1`. -/
def clipColumns (clip : Rect) (width : Nat) (c : Span) : Int × Int :=
  let col1 := wrap c.n
  let col1 := if wrap (c.d + col1) > clip.x + clip.w then clip.x + clip.w - c.d else col1
  let col1 := if wrap (c.d + col1) > wrap width then wrap width - c.d else col1
  (if c.d < clip.x then clip.x - c.d else 0, col1)

/-- `gfx_blit_region`, with the destination and the source of each pixel that is copied. -/
def gfxBlitRegion (clip : Rect) (dstW dstH srcW srcH : Nat) (dx dy sx sy : Int) (sw sh : Nat) :
    List ((Int × Int) × (Int × Int)) :=
  let c := clipSource srcW dx sx sw
  let r := clipSource srcH dy sy sh
  let cols := clipColumns clip dstW c
  if cols.1 ≥ cols.2 then []
  else
    (List.range r.n).flatMap fun row : Nat =>
      let dRow := wrap (r.d + wrap row)
      if dRow < 0 ∨ dRow ≥ dstH ∨ dRow < clip.y ∨ dRow ≥ clip.y + clip.h then []
      else
        (List.range (cols.2 - cols.1).toNat).map fun k : Nat =>
          ((c.d + cols.1 + k, dRow), (c.s + cols.1 + k, r.s + row))

/-- The source pixel that belongs to a pixel is in the rectangle and in the source, and the pixel may be written. -/
def Copied (clip : Rect) (dstW dstH srcW srcH : Nat) (dx dy sx sy : Int) (sw sh : Nat) (p q : Int × Int) : Prop :=
  q = (p.1 - dx + sx, p.2 - dy + sy) ∧ (⟨sx, sy, sw, sh⟩ : Rect).Has q ∧ OnSurface srcW srcH q ∧
    clip.Has p ∧ OnSurface dstW dstH p

theorem wrap_eq_iff {n y : Int} (low : -2 ^ 31 ≤ y) (high : y < 2 ^ 31) : wrap n = y ↔ (n - y) % 2 ^ 32 = 0 := by
  unfold wrap
  rw [Int.bmod_def]
  split_ifs <;> omega

theorem wrap_add_wrap (d n : Int) : wrap (d + wrap n) = wrap (d + n) := Int.add_bmod_bmod

/-- The pixels of the source that are copied, along one axis. If the rectangle ends before the source, it is the whole of
it. -/
def Taken (size n : Nat) (s u : Int) : Prop := 0 ≤ u ∧ u < size ∧ (s + n < 0 ∨ s ≤ u ∧ u < s + n)

/-- The same of rows. If the rectangle begins behind the source, it is all rows but those between the two. -/
def TakenRow (size n : Nat) (s v : Int) : Prop := if (size : Int) < s then ¬(size ≤ v ∧ v < s) else Taken size n s v

section

variable {size n : Nat} {d s : Int} (size30 : size < 2 ^ 30)
  (small : d.natAbs < 2 ^ 15 ∧ s.natAbs < 2 ^ 15 ∧ n < 2 ^ 15)

include size30 small

theorem clipSource_before (before : s + n < 0) : clipSource size d s n = ⟨d - s, 0, size⟩ := by
  unfold clipSource
  rw [if_pos (by omega : s < 0), wrap_of_small (by omega) (by omega)]
  dsimp only
  split_ifs <;> simp only [Span.mk.injEq, true_and] <;> omega

theorem clipSource_behind (behind : size < s) : clipSource size d s n = ⟨d, s, (size - s + 2 ^ 32).toNat⟩ := by
  unfold clipSource
  rw [if_neg (by omega : ¬s < 0)]
  dsimp only
  split_ifs <;> simp only [Span.mk.injEq, true_and] <;> omega

theorem clipSource_meets (meets : 0 ≤ s + n ∧ s ≤ size) :
    clipSource size d s n = ⟨d + (max s 0 - s), max s 0, (min (s + n) size - max s 0).toNat⟩ := by
  unfold clipSource
  by_cases negative : s < 0
  · rw [if_pos negative, wrap_of_small (by omega) (by omega)]
    dsimp only
    split_ifs <;> simp only [Span.mk.injEq] <;> omega
  · rw [if_neg negative]
    dsimp only
    split_ifs <;> simp only [Span.mk.injEq] <;> omega

/-- Where the rectangle does not begin behind the source, the span has the pixels that are taken. -/
theorem clipSource_spec (reaches : s ≤ size) {c : Span} (cut : clipSource size d s n = c) :
    c.d.natAbs < 2 ^ 16 ∧ c.n < 2 ^ 30 ∧ ∀ x u : Int, c.d ≤ x ∧ x < c.d + c.n ∧ u = c.s + (x - c.d) ↔
      u = x - d + s ∧ Taken size n s u := by
  unfold Taken
  by_cases before : s + n < 0
  · rw [clipSource_before size30 small before] at cut
    subst cut
    refine ⟨?_, ?_, fun x u => ?_⟩ <;> dsimp only <;> omega
  · rw [clipSource_meets size30 small ⟨by omega, reaches⟩] at cut
    subst cut
    refine ⟨?_, ?_, fun x u => ?_⟩ <;> dsimp only <;> omega

end

/-- The clip rectangle lies in the destination. -/
def Rect.Within (clip : Rect) (width height : Nat) : Prop :=
  0 ≤ clip.x ∧ clip.x + clip.w ≤ width ∧ 0 ≤ clip.y ∧ clip.y + clip.h ≤ height

section

variable {clip : Rect} {width height : Nat} (within : clip.Within width height) (bound : width < 2 ^ 30)

include within bound

theorem clipColumns_eq {c : Span} (small : c.d.natAbs < 2 ^ 16 ∧ c.n < 2 ^ 30) :
    clipColumns clip width c = (max (clip.x - c.d) 0, min (c.n : Int) (clip.x + clip.w - c.d)) := by
  obtain ⟨left, right, -, -⟩ := within
  have cut : ∀ col1 : Int, col1 = c.n ∨ col1 = clip.x + clip.w - c.d → wrap (c.d + col1) = c.d + col1 :=
    fun col1 either => wrap_of_small (by omega) (by omega)
  have columns : wrap c.n = c.n := wrap_of_small (by omega) (by omega)
  have edge : wrap width = width := wrap_of_small (by omega) (by omega)
  simp only [clipColumns, columns, edge, cut _ (.inl rfl)]
  by_cases beyond : c.d + c.n > clip.x + clip.w
  · rw [if_pos beyond, cut _ (.inr rfl), if_neg (show ¬c.d + (clip.x + clip.w - c.d) > width by omega), Prod.mk.injEq]
    split_ifs <;> omega
  · rw [if_neg beyond, cut _ (.inl rfl), if_neg (show ¬c.d + c.n > width by omega), Prod.mk.injEq]
    split_ifs <;> omega

/-- Behind the source the number of columns is negative as an `int`. -/
theorem clipColumns_behind {size : Nat} {d s : Int} (size30 : size < 2 ^ 30) (small : d.natAbs < 2 ^ 15 ∧ s.natAbs < 2 ^ 15)
    (behind : size < s) : (clipColumns clip width ⟨d, s, (size - s + 2 ^ 32).toNat⟩).2 < 0 := by
  obtain ⟨left, right, -, -⟩ := within
  have columns : wrap (size - s + 2 ^ 32).toNat = size - s := (wrap_eq_iff (by omega) (by omega)).mpr (by omega)
  have edge : wrap width = width := wrap_of_small (by omega) (by omega)
  have cut : ∀ col1 : Int, col1 = size - s ∨ col1 = clip.x + clip.w - d → wrap (d + col1) = d + col1 :=
    fun col1 either => wrap_of_small (by omega) (by omega)
  simp only [clipColumns, columns, edge, cut _ (.inl rfl)]
  by_cases beyond : d + (size - s) > clip.x + clip.w
  · rw [if_pos beyond, cut _ (.inr rfl), if_neg (by omega)]
    omega
  · rw [if_neg beyond, cut _ (.inl rfl), if_neg (by omega)]
    omega

end

section

variable {clip : Rect} {dstW dstH srcW srcH : Nat} {dx dy sx sy : Int} {sw sh : Nat}
  (within : clip.Within dstW dstH) (bounds : dstW < 2 ^ 30 ∧ dstH < 2 ^ 30 ∧ srcW < 2 ^ 30 ∧ srcH < 2 ^ 30)
  (smallX : dx.natAbs < 2 ^ 15 ∧ sx.natAbs < 2 ^ 15 ∧ sw < 2 ^ 15)
  (smallY : dy.natAbs < 2 ^ 15 ∧ sy.natAbs < 2 ^ 15 ∧ sh < 2 ^ 15)

include within bounds smallX

/-- The columns of the destination that are written to, and the source column of each. -/
theorem mem_columns {c : Span} (cut : clipSource srcW dx sx sw = c) {cols : Int × Int}
    (clipped : clipColumns clip dstW c = cols) (x u : Int) :
    c.d + cols.1 ≤ x ∧ x < c.d + cols.2 ∧ u = c.s + (x - c.d) ↔
      u = x - dx + sx ∧ (clip.x ≤ x ∧ x < clip.x + clip.w) ∧ Taken srcW sw sx u := by
  by_cases behind : srcW < sx
  · rw [clipSource_behind bounds.2.2.1 smallX behind] at cut
    subst cut
    have negative := clipColumns_behind within bounds.1 bounds.2.2.1 ⟨smallX.1, smallX.2.1⟩ behind
    have first : 0 ≤ cols.1 := by
      rw [← clipped, clipColumns]
      dsimp only
      split_ifs <;> omega
    rw [clipped] at negative
    unfold Taken
    dsimp only
    omega
  · obtain ⟨far, short, spec⟩ := clipSource_spec bounds.2.2.1 smallX (by omega) cut
    rw [clipColumns_eq within bounds.1 ⟨far, short⟩] at clipped
    subst clipped
    have column := spec x u
    dsimp only
    constructor
    · rintro ⟨first, last, rfl⟩
      obtain ⟨image, taken⟩ := column.mp ⟨by omega, by omega, rfl⟩
      exact ⟨image, by omega, taken⟩
    · rintro ⟨image, inside, taken⟩
      obtain ⟨first, last, rfl⟩ := column.mpr ⟨image, taken⟩
      exact ⟨by omega, by omega, rfl⟩

omit smallX

include smallY

/-- A row of the clip rectangle is written to. -/
theorem exists_row {r : Span} (cut : clipSource srcH dy sy sh = r) {y : Int} (inside : clip.y ≤ y ∧ y < clip.y + clip.h) :
    (∃ row : Nat, row < r.n ∧ wrap (r.d + wrap row) = y) ↔ TakenRow srcH sh sy (y - dy + sy) := by
  obtain ⟨-, -, top, bottom⟩ := within
  have hits : ∀ row : Nat, wrap (r.d + wrap row) = y ↔ (r.d + row - y) % 2 ^ 32 = 0 := by
    intro row
    rw [wrap_add_wrap, wrap_eq_iff (by omega) (by omega)]
  simp only [hits]
  unfold TakenRow
  by_cases behind : srcH < sy
  · rw [clipSource_behind bounds.2.2.2 smallY behind] at cut
    subst cut
    rw [if_pos (by omega)]
    dsimp only
    constructor
    · rintro ⟨row, below, hit⟩
      omega
    · intro outside
      exact ⟨((y - dy) % 2 ^ 32).toNat, by omega, by omega⟩
  · rw [if_neg (by omega)]
    obtain ⟨far, short, spec⟩ := clipSource_spec bounds.2.2.2 smallY (by omega) cut
    constructor
    · rintro ⟨row, below, hit⟩
      obtain ⟨image, taken⟩ := (spec y _).mp ⟨by omega, by omega, rfl⟩
      exact image ▸ taken
    · intro taken
      obtain ⟨first, last, -⟩ := (spec y _).mpr ⟨rfl, taken⟩
      exact ⟨(y - r.d).toNat, by omega, by omega⟩

include smallX

/-- A pixel is written to if and only if its column and its row are. -/
theorem exists_copied (x y : Int) : (∃ q, ((x, y), q) ∈ gfxBlitRegion clip dstW dstH srcW srcH dx dy sx sy sw sh) ↔
    ((clip.x ≤ x ∧ x < clip.x + clip.w) ∧ Taken srcW sw sx (x - dx + sx)) ∧
      (clip.y ≤ y ∧ y < clip.y + clip.h) ∧ TakenRow srcH sh sy (y - dy + sy) := by
  have columns := mem_columns within bounds smallX rfl rfl x
  have row := fun inside => exists_row (y := y) within bounds smallY rfl inside
  simp only [gfxBlitRegion]
  generalize clipColumns clip dstW (clipSource srcW dx sx sw) = cols at *
  generalize clipSource srcW dx sx sw = c at *
  generalize clipSource srcH dy sy sh = r at *
  simp only [List.mem_ite_nil_left, List.mem_flatMap, List.mem_map, List.mem_range, Prod.mk.injEq]
  obtain ⟨left, right, top, bottom⟩ := within
  constructor
  · rintro ⟨q, -, n, below, free, k, inside, ⟨rfl, hit⟩, -⟩
    rw [hit] at free
    obtain ⟨image, inside, taken⟩ := (columns _).mp ⟨by omega, by omega, rfl⟩
    exact ⟨⟨inside, image ▸ taken⟩, by omega, (row (by omega)).mp ⟨n, below, hit⟩⟩
  · rintro ⟨⟨inside, taken⟩, inside', taken'⟩
    obtain ⟨n, below, hit⟩ := (row inside').mpr taken'
    obtain ⟨first, last, -⟩ := (columns _).mpr ⟨rfl, inside, taken⟩
    exact ⟨_, by omega, n, below, by omega, (x - c.d - cols.1).toNat, by omega, ⟨by omega, hit⟩, rfl⟩

/-- Where the rectangle neither ends before the source nor begins below it, the copy is exact. -/
theorem copied_of_reaches (reachesX : 0 ≤ sx + sw) (reachesY : 0 ≤ sy + sh ∧ sy ≤ srcH) (p q : Int × Int) :
    (p, q) ∈ gfxBlitRegion clip dstW dstH srcW srcH dx dy sx sy sw sh ↔
      Copied clip dstW dstH srcW srcH dx dy sx sy sw sh p q := by
  obtain ⟨x, y⟩ := p
  obtain ⟨u, v⟩ := q
  have columns := mem_columns within bounds smallX rfl rfl x
  obtain ⟨far, short, inY⟩ := clipSource_spec bounds.2.2.2 smallY reachesY.2 rfl
  simp only [gfxBlitRegion]
  generalize clipColumns clip dstW (clipSource srcW dx sx sw) = cols at *
  generalize clipSource srcW dx sx sw = c at *
  generalize clipSource srcH dy sy sh = r at *
  have rows : ∀ row : Nat, row < r.n → wrap (r.d + wrap row) = r.d + row := by
    intro row below
    rw [wrap_add_wrap, wrap_of_small (by omega) (by omega)]
  obtain ⟨left, right, top, bottom⟩ := within
  clear bounds smallX smallY far short
  simp only [Taken] at columns inY
  simp only [List.mem_ite_nil_left, List.mem_flatMap, List.mem_map, List.mem_range, Prod.mk.injEq, Copied, Rect.Has,
    OnSurface]
  constructor
  · rintro ⟨-, row, below, free, k, inside, ⟨rfl, rfl⟩, rfl, rfl⟩
    rw [rows row below] at free ⊢
    obtain ⟨column, clipped, source⟩ := (columns (c.s + cols.1 + k)).mp ⟨by omega, by omega, by omega⟩
    obtain ⟨line, source'⟩ := (inY (r.d + row) _).mp ⟨by omega, by omega, rfl⟩
    omega
  · rintro ⟨⟨rfl, rfl⟩, requested, source, clipped, -⟩
    obtain ⟨first, last, column⟩ := (columns _).mpr ⟨rfl, by omega, by omega⟩
    obtain ⟨first', last', line⟩ := (inY y _).mpr ⟨rfl, by omega⟩
    have row : wrap (r.d + wrap (y - r.d).toNat) = y := by
      rw [rows _ (by omega)]
      omega
    exact ⟨by omega, (y - r.d).toNat, by omega, by omega, (x - c.d - cols.1).toNat, by omega, by omega⟩

end

/-- The copy is exact if and only if the rectangle neither ends before the source nor begins below it, or no column, or
no row, of the clip rectangle is one that such a rectangle is copied to. -/
theorem gfxBlitRegion_exact (clip : Rect) (dstW dstH srcW srcH : Nat) (dx dy sx sy : Int) (sw sh : Nat)
    (within : clip.Within dstW dstH) (bounds : dstW < 2 ^ 30 ∧ dstH < 2 ^ 30 ∧ srcW < 2 ^ 30 ∧ srcH < 2 ^ 30)
    (smallX : dx.natAbs < 2 ^ 15 ∧ sx.natAbs < 2 ^ 15 ∧ sw < 2 ^ 15)
    (smallY : dy.natAbs < 2 ^ 15 ∧ sy.natAbs < 2 ^ 15 ∧ sh < 2 ^ 15) :
    (∀ p q : Int × Int, (p, q) ∈ gfxBlitRegion clip dstW dstH srcW srcH dx dy sx sy sw sh ↔
      Copied clip dstW dstH srcW srcH dx dy sx sy sw sh p q) ↔
    (0 ≤ sx + sw ∧ 0 ≤ sy + sh ∧ sy ≤ srcH) ∨
      (∀ x : Int, clip.x ≤ x → x < clip.x + clip.w → ¬Taken srcW sw sx (x - dx + sx)) ∨
      ∀ y : Int, clip.y ≤ y → y < clip.y + clip.h → ¬TakenRow srcH sh sy (y - dy + sy) := by
  by_cases reaches : 0 ≤ sx + sw ∧ 0 ≤ sy + sh ∧ sy ≤ srcH
  · exact iff_of_true (copied_of_reaches within bounds smallX smallY reaches.1 reaches.2) (.inl reaches)
  -- no pixel of the source is in the rectangle, so nothing is to be copied
  have none : ∀ p q, ¬Copied clip dstW dstH srcW srcH dx dy sx sy sw sh p q := by
    unfold Copied Rect.Has OnSurface
    intro p q copied
    dsimp only at copied
    omega
  have some := exists_copied within bounds smallX smallY
  simp only [none, iff_false, reaches, false_or]
  constructor
  · intro nothing
    by_contra! both
    obtain ⟨⟨x, left, right, taken⟩, y, top, bottom, taken'⟩ := both
    obtain ⟨q, copied⟩ := (some x y).mpr ⟨⟨⟨left, right⟩, taken⟩, ⟨top, bottom⟩, taken'⟩
    exact nothing _ _ copied
  · rintro free ⟨x, y⟩ q copied
    obtain ⟨⟨⟨left, right⟩, taken⟩, ⟨top, bottom⟩, taken'⟩ := (some x y).mp ⟨q, copied⟩
    obtain column | row := free
    · exact column x left right taken
    · exact row y top bottom taken'

theorem gfxBlitRegion_part : ((3, 4), (1, 2)) ∈ gfxBlitRegion ⟨0, 0, 8, 8⟩ 8 8 4 4 2 2 0 0 9 9 :=
  ((gfxBlitRegion_exact ⟨0, 0, 8, 8⟩ 8 8 4 4 2 2 0 0 9 9 (by unfold Rect.Within; decide) (by decide) (by decide)
    (by decide)).mpr (.inl (by decide)) (3, 4) (1, 2)).mpr (by unfold Copied Rect.Has OnSurface; decide)

/-- The columns from -3 to -2 are to be copied, and the source has only those from 0 on. -/
theorem gfxBlitRegion_left : ((3, 0), (0, 0)) ∈ gfxBlitRegion ⟨0, 0, 8, 8⟩ 8 8 4 4 0 0 (-3) 0 2 1 ∧
    ¬Copied ⟨0, 0, 8, 8⟩ 8 8 4 4 0 0 (-3) 0 2 1 (3, 0) (0, 0) := by
  unfold Copied Rect.Has OnSurface
  decide

end Xos.Graphics
