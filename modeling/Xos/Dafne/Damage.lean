import Xos.Graphics.Clip
import Mathlib.Logic.Function.Basic

/-!
# Which runs of the compositor repaint the whole screen (`compositor.c`)

`compositor_run` composites everything when a window on the list is flagged as moved, and takes back the flags of the
windows that it draws. Hiding a window flags it, and a hidden window is not drawn.
-/

namespace Xos.Dafne

open Graphics

def rectUnion (a b : Rect) : Rect :=
  if a.w = 0 then b
  else if b.w = 0 then a
  else
    let x2 := max (a.x + a.w) (b.x + b.w)
    let y2 := max (a.y + a.h) (b.y + b.h)
    .of (min a.x b.x) (min a.y b.y) (x2 - min a.x b.x) (y2 - min a.y b.y)

def rectIntersect (a b : Rect) : Rect :=
  let x1 := max a.x b.x
  let y1 := max a.y b.y
  let x2 := min (a.x + a.w) (b.x + b.w)
  let y2 := min (a.y + a.h) (b.y + b.h)
  if x2 ≤ x1 ∨ y2 ≤ y1 then ⟨0, 0, 0, 0⟩ else .of x1 y1 (x2 - x1) (y2 - y1)

def titleBarHeight : Int := 35

/-- `present` is `exists`, and `width` and `dirty` are those of `front_buf`. -/
structure Window where
  present : Bool
  hidden : Bool
  moved : Bool
  titleDirty : Bool
  presented : Bool
  x : Int
  y : Int
  width : Nat
  dirty : Rect

namespace Window

def visible (w : Window) : Bool := w.present && !w.hidden

def title (w : Window) : Rect := .of w.x w.y w.width titleBarHeight

def clearDirty (w : Window) : Window := { w with dirty := { w.dirty with w := 0 } }

def windowShow (w : Window) (shown : Bool) : Window :=
  if w.hidden = shown then { w with hidden := !shown, moved := true, titleDirty := true } else w

end Window

/-- `order` is the list from `s_last_window` on, and `clients` are the windows of the clients. -/
structure Compositor where
  pool : Nat → Window
  order : List Nat
  clients : List Nat
  desktop : Rect
  cursor : Int × Int
  prevCursor : Int × Int
  fullRedraw : Bool

namespace Compositor

/-- A loop over the list that skips the windows that are not drawn. -/
def onVisible (c : Compositor) (f : Window → Window) : Compositor :=
  { c with
    pool := fun i => if i ∈ c.order ∧ (c.pool i).visible then f (c.pool i) else c.pool i
    desktop := { c.desktop with w := 0 } }

def fullComposite (c : Compositor) : Compositor :=
  c.onVisible fun w => { w.clearDirty with titleDirty := false, moved := false }

def sendPaintEvents (c : Compositor) : Compositor :=
  { c with pool := fun i => if i ∈ c.clients then { c.pool i with presented := false } else c.pool i }

def collectDirtyRegions (c : Compositor) : Rect :=
  let ofWindow (region : Rect) (i : Nat) : Rect :=
    let w := c.pool i
    if !w.visible then region
    else
      let region := if w.titleDirty then rectUnion region w.title else region
      if w.dirty.w > 0 then
        rectUnion region (.of (w.x + w.dirty.x) (w.y + titleBarHeight + w.dirty.y) w.dirty.w w.dirty.h)
      else region
  let region := (List.range 10).foldl ofWindow (if c.desktop.w > 0 then c.desktop else ⟨0, 0, 0, 0⟩)
  let here : Rect := .of c.cursor.1 c.cursor.2 12 20
  if c.cursor ≠ c.prevCursor then rectUnion (rectUnion region (.of c.prevCursor.1 c.prevCursor.2 12 20)) here
  else if region.w > 0 then rectUnion region here
  else region

def compositeWindows (c : Compositor) (region : Rect) : Compositor :=
  c.onVisible fun w =>
    { w.clearDirty with titleDirty := if (rectIntersect w.title region).w > 0 then false else w.titleDirty }

/-- The test for the way over `full_composite`. -/
def repaints (c : Compositor) : Bool := c.order.any (fun i => (c.pool i).moved) || c.fullRedraw

def compositorRun (c : Compositor) : Compositor :=
  if c.repaints then { c.fullComposite.sendPaintEvents with fullRedraw := false }
  else
    let region := c.collectDirtyRegions
    if region.w = 0 then c else (c.compositeWindows region).sendPaintEvents

variable {c : Compositor}

theorem sendPaintEvents_moved (i : Nat) : (c.sendPaintEvents.pool i).moved = (c.pool i).moved := by
  simp only [sendPaintEvents]
  split <;> rfl

/-- A window that is drawn is not flagged any more, and the others are as they were. -/
theorem compositorRun_moved (full : c.repaints) (i : Nat) :
    (c.compositorRun.pool i).moved =
      if i ∈ c.order ∧ (c.pool i).visible then false else (c.pool i).moved := by
  rw [compositorRun, if_pos full]
  simp only [sendPaintEvents_moved, fullComposite, onVisible]
  split <;> rfl

theorem compositorRun_order : c.compositorRun.order = c.order := by
  simp only [compositorRun, fullComposite, compositeWindows, onVisible, sendPaintEvents]
  split_ifs <;> rfl

/-- One window, which has been composited. -/
def oneWindow : Compositor where
  pool _ := ⟨true, false, false, false, true, 100, 100, 64, ⟨0, 0, 0, 0⟩⟩
  order := [0]
  clients := []
  desktop := ⟨0, 0, 0, 0⟩
  cursor := (0, 0)
  prevCursor := (0, 0)
  fullRedraw := false

def withWindow (c : Compositor) (w : Window) : Compositor := { c with pool := Function.update c.pool 0 w }

end Compositor

end Xos.Dafne
