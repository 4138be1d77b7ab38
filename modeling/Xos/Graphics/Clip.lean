import Mathlib.Tactic.Ring

/-!
# Clipping (`gfx.h`)

`gfx_set_clip` clamps the position and the extent of a rectangle one without the other. A rectangle that begins
outside of the surface keeps its extent.
-/

namespace Xos.Graphics

/-- The result of an operation on `int`. -/
def wrap (n : Int) : Int := n.bmod (2 ^ 32)

structure Rect where
  x : Int
  y : Int
  w : Nat
  h : Nat

/-- The conversions to the fields of a `rect`. -/
def Rect.of (x y w h : Int) : Rect :=
  ⟨x.bmod (2 ^ 16), y.bmod (2 ^ 16), (w % 2 ^ 16).toNat, (h % 2 ^ 16).toNat⟩

/-- `CLAMP(v, 0, size)` of a position. -/
def clampPosition (v : Int) (size : Nat) : Int := if v < 0 then 0 else if v > size then size else v

/-- `CLAMP(n, 0, size - v)` of an extent, where the difference is a `uint`. -/
def clampExtent (n : Nat) (v : Int) (size : Nat) : Int := if n > (size - v) % 2 ^ 32 then (size - v) % 2 ^ 32 else n

def gfxSetClip (width height : Nat) (rc : Rect) : Rect :=
  .of (clampPosition rc.x width) (clampPosition rc.y height) (clampExtent rc.w rc.x width) (clampExtent rc.h rc.y height)

/-- The pixels that two loops write. -/
def pixels (x1 y1 x2 y2 : Int) : List (Int × Int) :=
  (List.range (y2 - y1).toNat).flatMap fun j : Nat =>
    (List.range (x2 - x1).toNat).map fun i : Nat => (x1 + i, y1 + j)

/-- `gfx_pixel`, with the pixels that it writes. The comparisons are unsigned. -/
def gfxPixel (clip : Rect) (x y : Nat) : List (Int × Int) :=
  if x < clip.x % 2 ^ 32 ∨ x ≥ (clip.x + clip.w) % 2 ^ 32 ∨ y < clip.y % 2 ^ 32 ∨ y ≥ (clip.y + clip.h) % 2 ^ 32 then []
  else [(x, y)]

def gfxFill (clip : Rect) : List (Int × Int) := pixels clip.x clip.y (clip.x + clip.w) (clip.y + clip.h)

def gfxRect (clip : Rect) (x y : Int) (w h color : Nat) : List (Int × Int) :=
  let x1 := if x > clip.x then x else clip.x
  let y1 := if y > clip.y then y else clip.y
  let x2 := if wrap (x + wrap w) < clip.x + clip.w then wrap (x + wrap w) else clip.x + clip.w
  let y2 := if wrap (y + wrap h) < clip.y + clip.h then wrap (y + wrap h) else clip.y + clip.h
  if x1 ≥ x2 ∨ y1 ≥ y2 ∨ color / 2 ^ 24 % 2 ^ 8 = 0 then [] else pixels x1 y1 x2 y2

/-- A pixel of a rectangle. -/
def Rect.Has (r : Rect) (p : Int × Int) : Prop :=
  r.x ≤ p.1 ∧ p.1 < r.x + r.w ∧ r.y ≤ p.2 ∧ p.2 < r.y + r.h

/-- A pixel of a surface. -/
def OnSurface (width height : Nat) (p : Int × Int) : Prop := 0 ≤ p.1 ∧ p.1 < width ∧ 0 ≤ p.2 ∧ p.2 < height

instance (r : Rect) (p : Int × Int) : Decidable (r.Has p) := inferInstanceAs (Decidable (_ ∧ _))

theorem mem_pixels {x1 y1 x2 y2 : Int} {p : Int × Int} (mem : p ∈ pixels x1 y1 x2 y2) :
    x1 ≤ p.1 ∧ p.1 < x2 ∧ y1 ≤ p.2 ∧ p.2 < y2 := by
  simp only [pixels, List.mem_flatMap, List.mem_map, List.mem_range] at mem
  obtain ⟨j, below, i, left, rfl⟩ := mem
  omega

theorem mem_of_mem_ite {P : Prop} [Decidable P] {p : Int × Int} {l : List (Int × Int)}
    (mem : p ∈ if P then [] else l) : p ∈ l := by
  split at mem
  · exact absurd mem List.not_mem_nil
  · exact mem

section

variable {clip : Rect} {p : Int × Int}

theorem has_of_gfxFill (written : p ∈ gfxFill clip) : clip.Has p := mem_pixels written

theorem has_of_gfxRect {x y : Int} {w h color : Nat} (written : p ∈ gfxRect clip x y w h color) : clip.Has p := by
  have inside := mem_pixels (mem_of_mem_ite written)
  rw [Rect.Has]
  split_ifs at inside <;> omega

theorem has_of_gfxPixel {x y : Nat} (placed : 0 ≤ clip.x ∧ 0 ≤ clip.y)
    (small : clip.x + clip.w < 2 ^ 32 ∧ clip.y + clip.h < 2 ^ 32) (written : p ∈ gfxPixel clip x y) : clip.Has p := by
  rw [gfxPixel] at written
  split at written
  · exact absurd written List.not_mem_nil
  · obtain rfl := List.mem_singleton.mp written
    rw [Rect.Has]
    omega

end

/-- The ranges of the fields. -/
def Rect.Fields (r : Rect) : Prop :=
  (-2 ^ 15 ≤ r.x ∧ r.x < 2 ^ 15) ∧ (-2 ^ 15 ≤ r.y ∧ r.y < 2 ^ 15) ∧ r.w < 2 ^ 16 ∧ r.h < 2 ^ 16

section

variable {n size : Nat} {v : Int} (small : size ≤ 32767) (fields : -2 ^ 15 ≤ v ∧ v < 2 ^ 15)

include small

theorem clampPosition_bmod : (clampPosition v size).bmod (2 ^ 16) = min (max v 0) size := by
  rw [clampPosition]
  split_ifs <;> rw [Int.bmod_eq_of_le (by omega) (by omega)] <;> omega

include fields

/-- Only behind the edge the difference wraps, and the extent is kept. -/
theorem clampExtent_mod (extent : n < 2 ^ 16) :
    ((clampExtent n v size % 2 ^ 16).toNat : Int) = if v ≤ size then min (n : Int) (size - v) else n := by
  rw [clampExtent]
  split_ifs <;> omega

end

section

variable {width height : Nat} {rc : Rect}

/-- What `gfx_set_clip` is for. -/
def ClipExact (width height : Nat) (rc : Rect) : Prop :=
  ∀ p, (gfxSetClip width height rc).Has p ↔ rc.Has p ∧ OnSurface width height p

variable (surface : width ≤ 32767 ∧ height ≤ 32767) (fields : rc.Fields)

include surface fields

theorem gfxSetClip_fields : (gfxSetClip width height rc).x = min (max rc.x 0) width ∧
    (gfxSetClip width height rc).y = min (max rc.y 0) height ∧
    ((gfxSetClip width height rc).w : Int) = (if rc.x ≤ width then min (rc.w : Int) (width - rc.x) else rc.w) ∧
    ((gfxSetClip width height rc).h : Int) = if rc.y ≤ height then min (rc.h : Int) (height - rc.y) else rc.h :=
  ⟨clampPosition_bmod surface.1, clampPosition_bmod surface.2, clampExtent_mod surface.1 fields.1 fields.2.2.1,
    clampExtent_mod surface.2 fields.2.1 fields.2.2.2⟩

/-- The first and the last pixel of the clip rectangle tell whether it is the intersection. -/
theorem clipExact_iff : ClipExact width height rc ↔ rc.w = 0 ∨ rc.h = 0 ∨ rc.x = width ∨ rc.y = height ∨
    (0 ≤ rc.x ∧ rc.x ≤ width ∧ 0 ≤ rc.y ∧ rc.y ≤ height) := by
  obtain ⟨x, y, w, h⟩ := gfxSetClip_fields surface fields
  constructor
  · intro exact
    by_contra outside
    rw [ClipExact] at exact
    generalize gfxSetClip width height rc = clip at *
    have columns : 0 < clip.w ∧ (rc.x ≤ width → clip.w = min (rc.w : Int) (width - rc.x)) := by split_ifs at w <;> omega
    have rows : 0 < clip.h ∧ (rc.y ≤ height → clip.h = min (rc.h : Int) (height - rc.y)) := by split_ifs at h <;> omega
    clear w h fields
    obtain ⟨⟨-, -, -, -⟩, -, right, -, bottom⟩ := (exact (clip.x, clip.y)).mp ⟨by omega, by omega, by omega, by omega⟩
    obtain ⟨⟨-, last, -, last'⟩, -, right', -, bottom'⟩ := (exact (clip.x + clip.w - 1, clip.y + clip.h - 1)).mp
      ⟨by omega, by omega, by omega, by omega⟩
    dsimp only at *
    have := columns.2 (by omega)
    have := rows.2 (by omega)
    omega
  · intro inside p
    simp only [Rect.Has, OnSurface, x, y, w, h]
    split_ifs <;> omega

end

/-- The clip rectangle is the intersection, and only its pixels are written, exactly for a rectangle that begins on the
surface or at its edge, or that has no pixel by its extent or by beginning at an edge. -/
theorem gfxSetClip_exact (width height : Nat) (rc : Rect) (surface : width ≤ 32767 ∧ height ≤ 32767)
    (fields : rc.Fields) :
    ClipExact width height rc ∧
        (∀ x y, ∀ p ∈ gfxPixel (gfxSetClip width height rc) x y, rc.Has p ∧ OnSurface width height p) ∧
        (∀ p ∈ gfxFill (gfxSetClip width height rc), rc.Has p ∧ OnSurface width height p) ∧
        (∀ x y w h color, ∀ p ∈ gfxRect (gfxSetClip width height rc) x y w h color,
          rc.Has p ∧ OnSurface width height p) ↔
      rc.w = 0 ∨ rc.h = 0 ∨ rc.x = width ∨ rc.y = height ∨
        (0 ≤ rc.x ∧ rc.x ≤ width ∧ 0 ≤ rc.y ∧ rc.y ≤ height) := by
  rw [← clipExact_iff surface fields]
  refine ⟨And.left, fun exact => ⟨exact, fun px py p written => ?_, fun p written => ?_, fun px py pw ph color p written => ?_⟩⟩
  · obtain ⟨x, y, w, h⟩ := gfxSetClip_fields surface fields
    obtain ⟨-, -, columns, rows⟩ := fields
    refine (exact p).mp (has_of_gfxPixel (by omega) ?_ written)
    rw [w, h]
    split_ifs <;> omega
  · exact (exact p).mp (has_of_gfxFill written)
  · exact (exact p).mp (has_of_gfxRect written)

theorem gfxSetClip_corner : (⟨95, 0, 10, 10⟩ : Rect).Has (99, 3) ∧ OnSurface 100 100 (99, 3) :=
  ((gfxSetClip_exact 100 100 ⟨95, 0, 10, 10⟩ (by decide) (by unfold Rect.Fields; decide)).mpr (by decide)).2.2.1 (99, 3)
    (by decide)

/-- A rectangle that begins five pixels to the left of the surface. The ten columns that are filled are those from the
edge on, and the last five are outside of the rectangle. -/
theorem gfxSetClip_left : (7, 0) ∈ gfxFill (gfxSetClip 100 100 ⟨-5, 0, 10, 10⟩) ∧
    ¬(⟨-5, 0, 10, 10⟩ : Rect).Has (7, 0) := by
  decide

end Xos.Graphics
