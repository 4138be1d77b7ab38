import Xos.Lib.Word

/-!
# The cursor of the kernel console (`console.c`)

A newline scrolls when the cursor has left the last row. A character that fills a row moves the cursor down as well,
and does not scroll.
-/

namespace Xos.Graphics

open Word List

/-- The cells that are rendered, and the numbers of rows by which `scroll` is called. -/
inductive ConsoleEffect
  | cell (col row : Nat)
  | scroll (rows : Nat)
deriving DecidableEq

structure Console where
  cols : Nat
  rows : Nat
  cursorX : Nat
  cursorY : Nat

def shadowMaxCols : Nat := 256

def shadowMaxRows : Nat := 96

def consoleInit (width height : Nat) : Console where
  cols := if width / 8 > shadowMaxCols then shadowMaxCols else width / 8
  rows := if height / 16 > shadowMaxRows then shadowMaxRows else height / 16
  cursorX := 0
  cursorY := 0

namespace Console

/-- `scroll`, which renders the whole screen again. -/
def scroll (c : Console) (n : Nat) : Console × List ConsoleEffect :=
  ({ c with cursorY := sub32 c.cursorY n },
    .scroll n :: (range c.rows).flatMap fun r => (range c.cols).map fun col => .cell col r)

def drawCharAt (col row : Nat) : List ConsoleEffect :=
  if col ≥ shadowMaxCols ∨ row ≥ shadowMaxRows then [] else [.cell col row]

def consolePutc (c : Console) (ch : Char) : Console × List ConsoleEffect :=
  if ch = '\n' then
    let c := { c with cursorX := 0, cursorY := u32 (c.cursorY + 1) }
    if c.cursorY ≥ c.rows then c.scroll (u32 (sub32 c.cursorY c.rows + 1)) else (c, [])
  else
    let drawn := drawCharAt c.cursorX c.cursorY
    let c := { c with cursorX := u32 (c.cursorX + 1) }
    -- the next row may be below the last one
    (if c.cursorX ≥ c.cols then { c with cursorX := 0, cursorY := u32 (c.cursorY + 1) } else c, drawn)

def consoleWrite (c : Console) : List Char → List ConsoleEffect
  | [] => []
  | ch :: text => (c.consolePutc ch).2 ++ (c.consolePutc ch).1.consoleWrite text

end Console

/-- A cell is on the screen, with its pixels in the framebuffer, and `scroll` keeps a number of rows that is not
negative. -/
def ConsoleEffect.Inside (c : Console) (width height : Nat) : ConsoleEffect → Prop
  | .cell col row => col < c.cols ∧ row < c.rows ∧ 8 * col + 8 ≤ width ∧ 16 * row + 16 ≤ height
  | .scroll n => n ≤ c.rows

theorem consoleInit_size (width height : Nat) :
    (consoleInit width height).cols ≤ min (width / 8) 256 ∧ (consoleInit width height).rows ≤ min (height / 16) 96 := by
  have cols : (consoleInit width height).cols = if width / 8 > 256 then 256 else width / 8 := rfl
  have rows : (consoleInit width height).rows = if height / 16 > 96 then 96 else height / 16 := rfl
  rw [cols, rows]
  split_ifs <;> omega

/-- The length of the first line and those of the lines behind it. -/
def lineLengths : List Char → Nat × List Nat
  | [] => (0, [])
  | ch :: text =>
    if ch = '\n' then (0, (lineLengths text).1 :: (lineLengths text).2)
    else ((lineLengths text).1 + 1, (lineLengths text).2)

namespace Console

variable (c : Console)

/-- There is a column, and the row of character `i` of a line is on the screen or is not drawn. -/
def CharFits (row i : Nat) : Prop :=
  0 < c.cols ∧ (u32 (row + i / c.cols) < c.rows ∨ shadowMaxRows ≤ u32 (row + i / c.cols))

/-- Every character of a line that begins in a row fits, and so does the newline behind it: it leads to a row of the
screen, or the rows that are missing are at most all rows. The next line begins there, or in the last row. -/
def LinesFit : Nat → Nat → List Nat → Prop
  | row, len, [] => ∀ i < len, c.CharFits row i
  | row, len, next :: lens =>
    (∀ i < len, c.CharFits row i) ∧
      if u32 (row + len / c.cols + 1) < c.rows then LinesFit (u32 (row + len / c.cols + 1)) next lens
      else u32 (row + len / c.cols + 1) + 1 ≤ 2 * c.rows ∧ LinesFit (c.rows - 1) next lens

/-- The cursor behind `k` characters of a line that begins in a row. -/
def after (row k : Nat) : Console := { c with cursorX := k % c.cols, cursorY := u32 (row + k / c.cols) }

end Console

namespace Console

variable {width height : Nat}

theorem inside_cell (col row : Nat) : (ConsoleEffect.cell col row).Inside (consoleInit width height) width height ↔
    col < (consoleInit width height).cols ∧ row < (consoleInit width height).rows := by
  have size := consoleInit_size width height
  rw [ConsoleEffect.Inside]
  omega

theorem inside_drawCharAt {col : Nat} (width height row : Nat) (left : col < (consoleInit width height).cols) :
    (∀ e ∈ drawCharAt col row, e.Inside (consoleInit width height) width height) ↔
      row < (consoleInit width height).rows ∨ shadowMaxRows ≤ row := by
  have size := consoleInit_size width height
  unfold drawCharAt shadowMaxCols shadowMaxRows
  split
  · exact iff_of_true (fun e mem => absurd mem not_mem_nil) (by omega)
  · simp only [mem_singleton, forall_eq, inside_cell]
    omega

variable {c : Console}

theorem after_zero {r : Nat} (bound : r < 2 ^ 32) : c.after r 0 = { c with cursorX := 0, cursorY := r } := by
  rw [after, Nat.zero_mod, Nat.zero_div, add_zero, u32_of_lt bound]

theorem LinesFit.chars {row len : Nat} {lens : List Nat} (fit : c.LinesFit row len lens) :
    ∀ i < len, c.CharFits row i := by
  cases lens with
  | nil => exact fit
  | cons next lens => exact fit.1

variable (init : consoleInit width height = c) (row k : Nat)

include init

theorem consolePutc_char {ch : Char} (other : ch ≠ '\n') (wide : 0 < c.cols) :
    (c.after row k).consolePutc ch = (c.after row (k + 1), drawCharAt (k % c.cols) (u32 (row + k / c.cols))) := by
  have size := (consoleInit_size width height).1
  rw [init] at size
  have left := Nat.mod_lt k wide
  simp only [consolePutc, after, if_neg other, u32_of_lt (show k % c.cols + 1 < 2 ^ 32 by omega)]
  have split := Nat.div_add_mod k c.cols
  by_cases last : k % c.cols + 1 ≥ c.cols
  · have full : k + 1 = c.cols * (k / c.cols + 1) := by
      rw [Nat.mul_add]
      omega
    rw [if_pos last, full, Nat.mul_mod_right, Nat.mul_div_cancel_left _ wide]
    simp only [Prod.mk.injEq, Console.mk.injEq, true_and, and_true]
    unfold u32
    omega
  · have same : k + 1 = c.cols * (k / c.cols) + (k % c.cols + 1) := by omega
    have column : (k + 1) % c.cols = k % c.cols + 1 := by
      rw [same, Nat.mul_add_mod]
      exact Nat.mod_eq_of_lt (by omega)
    have sameRow : (k + 1) / c.cols = k / c.cols := by
      rw [same, Nat.mul_add_div wide, Nat.div_eq_of_lt (show k % c.cols + 1 < c.cols by omega), add_zero]
    rw [if_neg last, column, sameRow]

theorem consolePutc_newline (some : 0 < c.rows) {r : Nat} (next : u32 (row + k / c.cols + 1) = r) :
    ((c.after row k).consolePutc '\n').1 = c.after (if r < c.rows then r else c.rows - 1) 0 ∧
      ((∀ e ∈ ((c.after row k).consolePutc '\n').2, e.Inside c width height) ↔ r < c.rows ∨ r + 1 ≤ 2 * c.rows) := by
  have size := (consoleInit_size width height).2
  have bound : r < 2 ^ 32 := next ▸ u32_lt _
  have add : u32 (u32 (row + k / c.cols) + 1) = r := by
    rw [← next]
    unfold u32
    omega
  simp only [consolePutc, if_pos, after, add]
  by_cases below : r < c.rows
  · rw [if_pos below, if_neg (by omega)]
    exact ⟨(after_zero bound).symm, iff_of_true (fun e mem => absurd mem not_mem_nil) (.inl below)⟩
  · have count : u32 (sub32 r c.rows + 1) = r - c.rows + 1 := by
      rw [sub32, if_pos (by omega), u32_of_lt (by omega)]
    have up : sub32 r (r - c.rows + 1) = c.rows - 1 := by
      rw [sub32, if_pos (by omega)]
      omega
    rw [if_neg below, if_pos (by omega), count, scroll, up]
    refine ⟨(after_zero (by omega)).symm, ?_⟩
    simp only [mem_cons, mem_flatMap, mem_map, mem_range, forall_eq_or_imp]
    have kept : (ConsoleEffect.scroll (r - c.rows + 1)).Inside c width height ↔ r + 1 ≤ 2 * c.rows := by
      rw [ConsoleEffect.Inside]
      omega
    rw [kept, or_iff_right below, and_iff_left]
    rintro e ⟨y, above, x, left, rfl⟩
    rw [← init, inside_cell, init]
    exact ⟨left, above⟩

/-- Writing the rest of a text whose first line has begun with `k` characters. -/
theorem inside_consoleWrite (text : List Char) (start : row < c.rows) (wide : c.cols = 0 → k = 0)
    (before : ∀ i < k, c.CharFits row i) :
    (∀ e ∈ (c.after row k).consoleWrite text, e.Inside c width height) ↔
      c.LinesFit row ((lineLengths text).1 + k) (lineLengths text).2 := by
  induction text generalizing row k with
  | nil =>
    rw [lineLengths, LinesFit, Nat.zero_add]
    exact iff_of_true (fun e mem => absurd mem not_mem_nil) before
  | cons ch text ih =>
    rw [consoleWrite]
    simp only [mem_append, or_imp, forall_and]
    by_cases newline : ch = '\n'
    · obtain ⟨next, effects⟩ := consolePutc_newline init row k (by omega) rfl
      subst newline
      rw [next, effects]
      have rest := ih (if u32 (row + k / c.cols + 1) < c.rows then u32 (row + k / c.cols + 1) else c.rows - 1) 0
        (by split <;> omega) (fun _ => rfl) (fun i none => absurd none (Nat.not_lt_zero i))
      rw [rest, lineLengths, if_pos rfl, LinesFit, Nat.zero_add, and_iff_right before, add_zero]
      split <;> simp_all
    · rw [lineLengths, if_neg newline]
      by_cases columns : 0 < c.cols
      · rw [consolePutc_char init row k newline columns]
        have char := inside_drawCharAt width height (u32 (row + k / c.cols))
          (init ▸ Nat.mod_lt k columns)
        rw [init] at char
        rw [char]
        by_cases fits : c.CharFits row k
        · have through : ∀ i < k + 1, c.CharFits row i := fun i less =>
            (Nat.lt_succ_iff_lt_or_eq.mp less).elim (before i) fun last => last ▸ fits
          rw [and_iff_right fits.2, ih row (k + 1) start (by omega) through, Nat.add_assoc, Nat.add_comm 1 k]
        · exact iff_of_false (fun both => fits ⟨columns, both.1⟩) fun fit => fits (fit.chars k (by omega))
      · -- the first character is drawn in a column that the screen does not have
        have size := (consoleInit_size width height).2
        rw [init] at size
        have drawn : .cell 0 row ∈ ((c.after row k).consolePutc ch).2 := by
          have none : c.cols = 0 := by omega
          simp [consolePutc, newline, after, none, wide none, drawCharAt, u32_of_lt (show row < 2 ^ 32 by omega),
            shadowMaxCols, shadowMaxRows]
          omega
        refine iff_of_false (fun both => columns ?_) fun fit => columns (fit.chars k (by omega)).1
        have inside := both.1 _ drawn
        rw [← init, inside_cell, init] at inside
        omega

end Console

/-- Everything is drawn on the screen, and nothing is scrolled by more than its rows, if and only if every line fits from
the row on in which it begins. -/
theorem consoleWrite_inside (width height : Nat) (text : List Char) :
    (∀ e ∈ (consoleInit width height).consoleWrite text, e.Inside (consoleInit width height) width height) ↔
      text = [] ∨ 16 ≤ height ∧ (consoleInit width height).LinesFit 0 (lineLengths text).1 (lineLengths text).2 := by
  obtain rfl | some := eq_or_ne text []
  · exact iff_of_true (fun e mem => absurd mem not_mem_nil) (.inl rfl)
  have rows : (consoleInit width height).rows = if height / 16 > 96 then 96 else height / 16 := rfl
  rw [or_iff_right some]
  by_cases screen : 16 ≤ height
  · have start : 0 < (consoleInit width height).rows := by
      rw [rows]
      split_ifs <;> omega
    have home : (consoleInit width height).after 0 0 = consoleInit width height := Console.after_zero (by decide)
    have exact := Console.inside_consoleWrite rfl 0 0 text start (fun _ => rfl) (by simp)
    rw [home, add_zero] at exact
    rw [and_iff_right screen, exact]
  · -- without rows the first character is drawn below the screen, or scrolls it
    have none : (consoleInit width height).rows = 0 := by
      rw [rows]
      split_ifs <;> omega
    refine iff_of_false (fun inside => ?_) fun both => screen both.1
    obtain ⟨ch, text, rfl⟩ := exists_cons_of_ne_nil some
    by_cases newline : ch = '\n'
    · have scrolled : .scroll 2 ∈ (consoleInit width height).consoleWrite (ch :: text) := by
        have count : u32 (sub32 (u32 (0 + 1)) 0 + 1) = 2 := by
          rw [u32_of_lt (n := 0 + 1) (by decide), sub32, if_pos (by decide), u32_of_lt (by decide)]
        have home : (consoleInit width height).cursorY = 0 := rfl
        simp only [Console.consoleWrite, Console.consolePutc, newline, if_true, none, home, ge_iff_le, Nat.zero_le,
          Console.scroll, count]
        exact mem_append_left _ mem_cons_self
      exact absurd (inside _ scrolled) (by rw [ConsoleEffect.Inside, none]; decide)
    · have drawn : .cell 0 0 ∈ (consoleInit width height).consoleWrite (ch :: text) := by
        simp [Console.consoleWrite, Console.consolePutc, newline, consoleInit, Console.drawCharAt, shadowMaxCols,
          shadowMaxRows]
      exact absurd (inside _ drawn).2.1 (by rw [none]; decide)

/-- Two characters on a screen of one cell. The second is drawn below it, and a newline then scrolls by three rows. -/
theorem consoleWrite_outside :
    .cell 0 1 ∈ (consoleInit 8 16).consoleWrite "ab\n".toList ∧
      ¬(ConsoleEffect.cell 0 1).Inside (consoleInit 8 16) 8 16 ∧
      .scroll 3 ∈ (consoleInit 8 16).consoleWrite "ab\n".toList ∧
      ¬(ConsoleEffect.scroll 3).Inside (consoleInit 8 16) 8 16 := by
  refine ⟨by decide +kernel, fun inside => ?_, by decide +kernel, fun inside => ?_⟩
  · exact absurd inside.2.1 (by decide)
  · exact absurd inside (by decide : ¬3 ≤ (consoleInit 8 16).rows)

end Xos.Graphics
