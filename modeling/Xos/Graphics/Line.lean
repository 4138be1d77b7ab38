import Xos.Graphics.Clip
import Mathlib.Tactic.Linarith
import Mathlib.Data.List.Chain

/-!
# The loop of `gfx_line`

The loop (`user/lib/gfx.h`) is left only at the second end point. Both coordinates get there in the
same round, since the error term tells how far the minor one is behind.
-/

namespace Xos.Graphics

theorem wrap_of_small {n : Int} (low : -2 ^ 31 ≤ n) (high : n < 2 ^ 31) : wrap n = n :=
  Int.bmod_eq_of_le (by omega) (by omega)

/-- The variables of `gfx_line` that its loop does not change. -/
structure Line where
  x1 : Int
  y1 : Int
  dx : Int
  dy : Int
  sx : Int
  sy : Int

/-- The variables that its loop changes. -/
structure Pen where
  x0 : Int
  y0 : Int
  err : Int

def Pen.point (p : Pen) : Int × Int := (p.x0, p.y0)

namespace Line

def next (l : Line) (p : Pen) : Pen :=
  let e2 := wrap (2 * p.err)
  let p := if e2 > wrap (-l.dy) then { p with err := wrap (p.err - l.dy), x0 := wrap (p.x0 + l.sx) } else p
  if e2 < l.dx then { p with err := wrap (p.err + l.dx), y0 := wrap (p.y0 + l.sy) } else p

/-- The points that are passed to `gfx_pixel`, if so many rounds are enough. -/
def plot (l : Line) : Nat → Pen → Option (List (Int × Int))
  | 0, _ => none
  | rounds + 1, p =>
    if p.x0 = l.x1 ∧ p.y0 = l.y1 then some [p.point] else (l.plot rounds (l.next p)).map (p.point :: ·)

end Line

/-- `gfx_line` up to the end of its loop. -/
def gfxLine (rounds : Nat) (x0 y0 x1 y1 : Int) : Option (List (Int × Int)) :=
  let dx := if x1 > x0 then wrap (x1 - x0) else wrap (x0 - x1)
  let dy := if y1 > y0 then wrap (y1 - y0) else wrap (y0 - y1)
  let sx := if x0 < x1 then 1 else -1
  let sy := if y0 < y1 then 1 else -1
  Line.plot ⟨x1, y1, dx, dy, sx, sy⟩ rounds ⟨x0, y0, wrap (dx - dy)⟩

/-- The error term `e` with `a` steps of the major coordinate and `b` of the minor one left, where `D` and `d` are
the distances between the end points. -/
structure Behind (D d e : Int) (a b : Nat) : Prop where
  eq : e = D - d + a * d - b * D
  diagonal : D = d → a = b
  low : -d < 2 * e
  high : e < 2 * D

namespace Behind

variable {D d e : Int} {a b : Nat}

theorem moves_of_diagonal (behind : Behind D d e a b) (pos : 0 < D) (same : D = d) : 2 * e < D := by
  have eq := behind.eq
  rw [behind.diagonal same, same] at eq
  linarith

variable (pos : 0 < D) (minor : 0 ≤ d) (le : d ≤ D)

include pos minor le in
theorem major (behind : Behind D d e (a + 1) b) (stays : D ≤ 2 * e) : Behind D d (e - d) a b := by
  have off : D ≠ d := fun same => absurd (behind.moves_of_diagonal pos same) (by omega)
  have high := behind.high
  refine ⟨?_, fun same => absurd same off, by omega, ?_⟩
  · rw [behind.eq]
    push_cast
    ring
  · have low := behind.low
    omega

include pos minor le in
theorem both (behind : Behind D d e (a + 1) b) (moves : 2 * e < D) :
    ∃ b', b = b' + 1 ∧ Behind D d (e - d + D) a b' := by
  have left : b ≠ 0 := by
    rintro rfl
    have eq := behind.eq
    push_cast at eq
    nlinarith [mul_nonneg (Int.natCast_nonneg a) minor]
  obtain ⟨b, rfl⟩ := Nat.exists_eq_add_one_of_ne_zero left
  have low := behind.low
  refine ⟨b, rfl, ?_, fun same => Nat.succ.inj (behind.diagonal same), by omega, by omega⟩
  rw [behind.eq]
  push_cast
  ring

include pos minor in
theorem arrived (behind : Behind D d e 0 b) : b = 0 := by
  have eq := behind.eq
  have low := behind.low
  by_contra left
  have one : (1 : Int) ≤ b := by omega
  push_cast at eq
  nlinarith

end Behind

/-- Consecutive points of a line, by the distances between its end points. -/
def Adjacent (dx dy : Int) (p q : Int × Int) : Prop :=
  (q.1 - p.1).natAbs ≤ 1 ∧ (q.2 - p.2).natAbs ≤ 1 ∧
    (dy ≤ dx → (q.1 - p.1).natAbs = 1) ∧ (dx ≤ dy → (q.2 - p.2).natAbs = 1)

namespace Line

variable {l : Line} {p : Pen} {n : Nat}

/-- The ways that are left to the end, of `a` and `b` steps. -/
structure Way (l : Line) (p : Pen) (a b : Nat) : Prop where
  x : l.x1 = p.x0 + l.sx * a
  y : l.y1 = p.y0 + l.sy * b
  signs : (l.sx = 1 ∨ l.sx = -1) ∧ (l.sy = 1 ∨ l.sy = -1)
  within : a ≤ l.dx ∧ b ≤ l.dy
  small : l.x1.natAbs < 2 ^ 28 ∧ l.y1.natAbs < 2 ^ 28 ∧ l.dx < 2 ^ 29 ∧ l.dy < 2 ^ 29

/-- The end is `n` rounds away. -/
def On (l : Line) (n : Nat) (p : Pen) : Prop :=
  ∃ b, l.Way p n b ∧ l.dy ≤ l.dx ∧ (0 < l.dx → Behind l.dx l.dy p.err n b) ∨
    l.Way p b n ∧ l.dx < l.dy ∧ Behind l.dy l.dx (-p.err) n b

theorem Way.arrived (way : l.Way p 0 0) : p.x0 = l.x1 ∧ p.y0 = l.y1 := by
  have x := way.x
  have y := way.y
  simp only [Nat.cast_zero, mul_zero, add_zero] at x y
  exact ⟨x.symm, y.symm⟩

theorem On.arrived (on : l.On 0 p) : p.x0 = l.x1 ∧ p.y0 = l.y1 := by
  obtain ⟨b, ⟨way, le, behind⟩ | ⟨way, less, behind⟩⟩ := on
  · have zero : b = 0 := by
      rcases lt_or_ge 0 l.dx with pos | point
      · exact (behind pos).arrived pos (by have := way.within; omega)
      · have := way.within
        omega
    exact (zero ▸ way).arrived
  · have within := way.within
    have zero : b = 0 := behind.arrived (by omega) (by omega)
    exact (zero ▸ way).arrived

/-- No operation of a round wraps. -/
theorem Way.next_eq {a b : Nat} (way : l.Way p a b) (low : -2 ^ 30 ≤ p.err) (high : p.err < 2 ^ 30) :
    l.next p = { x0 := if -l.dy < 2 * p.err then p.x0 + l.sx else p.x0
                 y0 := if 2 * p.err < l.dx then p.y0 + l.sy else p.y0
                 err := (if -l.dy < 2 * p.err then p.err - l.dy else p.err) +
                   if 2 * p.err < l.dx then l.dx else 0 } := by
  obtain ⟨x, y, ⟨sx, sy⟩, within, small⟩ := way
  have place : p.x0.natAbs < 2 ^ 30 ∧ p.y0.natAbs < 2 ^ 30 := by
    rcases sx with sx | sx <;> rcases sy with sy | sy <;> rw [sx] at x <;> rw [sy] at y <;> omega
  have e2 : wrap (2 * p.err) = 2 * p.err := wrap_of_small (by omega) (by omega)
  have dy : wrap (-l.dy) = -l.dy := wrap_of_small (by omega) (by omega)
  have x' : wrap (p.x0 + l.sx) = p.x0 + l.sx := wrap_of_small (by omega) (by omega)
  have y' : wrap (p.y0 + l.sy) = p.y0 + l.sy := wrap_of_small (by omega) (by omega)
  have less : wrap (p.err - l.dy) = p.err - l.dy := wrap_of_small (by omega) (by omega)
  have more : wrap (p.err + l.dx) = p.err + l.dx := wrap_of_small (by omega) (by omega)
  have both : wrap (p.err - l.dy + l.dx) = p.err - l.dy + l.dx := wrap_of_small (by omega) (by omega)
  simp only [next, e2, dy, x', less, gt_iff_lt]
  split_ifs <;> simp only [y', more, both, add_zero]

theorem Way.away {a b : Nat} (way : l.Way p a b) (left : a ≠ 0 ∨ b ≠ 0) : ¬(p.x0 = l.x1 ∧ p.y0 = l.y1) := by
  obtain ⟨x, y, ⟨sx, sy⟩, -, -⟩ := way
  rcases sx with sx | sx <;> rcases sy with sy | sy <;> rw [sx] at x <;> rw [sy] at y <;> omega

/-- A step of one coordinate, or of both. -/
theorem Way.move {a b a' b' : Nat} {q : Pen} (way : l.Way p a b)
    (x : q.x0 = p.x0 ∧ a' = a ∨ q.x0 = p.x0 + l.sx ∧ a = a' + 1)
    (y : q.y0 = p.y0 ∧ b' = b ∨ q.y0 = p.y0 + l.sy ∧ b = b' + 1) : l.Way q a' b' := by
  refine ⟨?_, ?_, way.signs, ?_, way.small⟩
  · rcases x with ⟨same, rfl⟩ | ⟨step, rfl⟩
    · rw [same, way.x]
    · rw [step, way.x, Nat.cast_succ, mul_add, mul_one, add_comm _ l.sx, add_assoc]
  · rcases y with ⟨same, rfl⟩ | ⟨step, rfl⟩
    · rw [same, way.y]
    · rw [step, way.y, Nat.cast_succ, mul_add, mul_one, add_comm _ l.sy, add_assoc]
  · have within := way.within
    omega

theorem On.step (on : l.On (n + 1) p) :
    ¬(p.x0 = l.x1 ∧ p.y0 = l.y1) ∧ l.On n (l.next p) ∧ Adjacent l.dx l.dy p.point (l.next p).point := by
  obtain ⟨b, ⟨way, le, behind⟩ | ⟨way, less, behind⟩⟩ := on
  · -- `x` steps in every round
    have within := way.within
    have small := way.small
    have signs := way.signs
    have pos : 0 < l.dx := by omega
    have here := behind pos
    have low := here.low
    have next := way.next_eq (by omega) (by have := here.high; omega)
    rw [if_pos low, if_pos low] at next
    refine ⟨way.away (.inl n.succ_ne_zero), ?_⟩
    rcases lt_or_ge (2 * p.err) l.dx with moves | stays
    · obtain ⟨b, rfl, there⟩ := here.both pos (by omega) le moves
      rw [if_pos moves, if_pos moves] at next
      rw [next]
      exact ⟨⟨b, .inl ⟨way.move (.inr ⟨rfl, rfl⟩) (.inr ⟨rfl, rfl⟩), le, fun _ => there⟩⟩,
        by simp only [Adjacent, Pen.point]; omega⟩
    · have off := fun same => here.moves_of_diagonal pos same
      rw [if_neg (by omega), if_neg (by omega), add_zero] at next
      rw [next]
      exact ⟨⟨b, .inl ⟨way.move (.inr ⟨rfl, rfl⟩) (.inl ⟨rfl, rfl⟩), le, fun _ => here.major pos (by omega) le stays⟩⟩,
        by simp only [Adjacent, Pen.point]; omega⟩
  · -- `y` does, and the error term counts the other way
    have within := way.within
    have small := way.small
    have signs := way.signs
    have pos : 0 < l.dy := by omega
    have low : 2 * p.err < l.dx := by have := behind.low; omega
    have next := way.next_eq (by have := behind.high; omega) (by omega)
    rw [if_pos low, if_pos low] at next
    refine ⟨way.away (.inr n.succ_ne_zero), ?_⟩
    rcases lt_or_ge (2 * -p.err) l.dy with moves | stays
    · obtain ⟨b, rfl, there⟩ := behind.both pos (by omega) less.le moves
      rw [if_pos (by omega), if_pos (by omega)] at next
      rw [next]
      refine ⟨⟨b, .inr ⟨way.move (.inr ⟨rfl, rfl⟩) (.inr ⟨rfl, rfl⟩), less, ?_⟩⟩, by simp only [Adjacent, Pen.point]; omega⟩
      convert there using 1
      ring
    · rw [if_neg (by omega), if_neg (by omega)] at next
      rw [next]
      refine ⟨⟨b, .inr ⟨way.move (.inl ⟨rfl, rfl⟩) (.inr ⟨rfl, rfl⟩), less, ?_⟩⟩, by simp only [Adjacent, Pen.point]; omega⟩
      convert behind.major pos (by omega) less.le stays using 1
      ring

/-- The points from here on, when `n` rounds are left. -/
theorem On.plot (on : l.On n p) {rounds : Nat} (enough : n < rounds) :
    ∃ points, l.plot rounds p = some (p.point :: points) ∧ points.length = n ∧
      (p.point :: points).getLast? = some (l.x1, l.y1) ∧
      List.IsChain (Adjacent l.dx l.dy) (p.point :: points) := by
  induction n generalizing p rounds with
  | zero =>
    obtain ⟨rounds, rfl⟩ := Nat.exists_eq_add_one_of_ne_zero (Nat.ne_of_gt enough)
    refine ⟨[], ?_, rfl, ?_, .singleton _⟩
    · rw [Line.plot, if_pos on.arrived]
    · rw [List.getLast?_singleton, Pen.point, on.arrived.1, on.arrived.2]
  | succ n ih =>
    obtain ⟨rounds, rfl⟩ := Nat.exists_eq_add_one_of_ne_zero (Nat.ne_of_gt (Nat.zero_lt_of_lt enough))
    obtain ⟨away, after, adjacent⟩ := on.step
    obtain ⟨points, plotted, length, last, chain⟩ := ih after (Nat.lt_of_succ_lt_succ enough)
    refine ⟨(l.next p).point :: points, ?_, congrArg Nat.succ length, ?_, .cons_cons adjacent chain⟩
    · rw [Line.plot, if_neg away, plotted, Option.map_some]
    · rw [List.getLast?_cons_cons, last]

end Line

theorem distance_eq {a b : Int} (low : a.natAbs < 2 ^ 28) (high : b.natAbs < 2 ^ 28) :
    (if b > a then wrap (b - a) else wrap (a - b)) = (b - a).natAbs := by
  rw [wrap_of_small (by omega) (by omega), wrap_of_small (by omega) (by omega)]
  split <;> omega

/-- The loop ends, with one point for each step of the major coordinate and one for the start. -/
theorem gfxLine_plots (x0 y0 x1 y1 : Int)
    (small : x0.natAbs < 2 ^ 28 ∧ y0.natAbs < 2 ^ 28 ∧ x1.natAbs < 2 ^ 28 ∧ y1.natAbs < 2 ^ 28)
    (rounds : Nat) (enough : max (x1 - x0).natAbs (y1 - y0).natAbs < rounds) :
    ∃ points, gfxLine rounds x0 y0 x1 y1 = some points ∧
      points.length = max (x1 - x0).natAbs (y1 - y0).natAbs + 1 ∧
      points.head? = some (x0, y0) ∧ points.getLast? = some (x1, y1) ∧
      points.IsChain (Adjacent (x1 - x0).natAbs (y1 - y0).natAbs) := by
  obtain ⟨smallX, smallY, smallX', smallY'⟩ := small
  rw [gfxLine, distance_eq smallX smallX', distance_eq smallY smallY', wrap_of_small (by omega) (by omega)]
  set sx : Int := if x0 < x1 then 1 else -1 with sign
  set sy : Int := if y0 < y1 then 1 else -1 with sign'
  have way : Line.Way ⟨x1, y1, (x1 - x0).natAbs, (y1 - y0).natAbs, sx, sy⟩
      ⟨x0, y0, (x1 - x0).natAbs - (y1 - y0).natAbs⟩ (x1 - x0).natAbs (y1 - y0).natAbs :=
    { x := by dsimp only; rw [sign]; split <;> omega
      y := by dsimp only; rw [sign']; split <;> omega
      signs := ⟨(ite_eq_or_eq ..), (ite_eq_or_eq ..)⟩
      within := ⟨le_rfl, le_rfl⟩
      small := by dsimp only; omega }
  have on : Line.On ⟨x1, y1, (x1 - x0).natAbs, (y1 - y0).natAbs, sx, sy⟩ (max (x1 - x0).natAbs (y1 - y0).natAbs)
      ⟨x0, y0, (x1 - x0).natAbs - (y1 - y0).natAbs⟩ := by
    rcases le_or_gt (y1 - y0).natAbs (x1 - x0).natAbs with le | less
    · rw [max_eq_left le]
      exact ⟨_, .inl ⟨way, Int.ofNat_le.mpr le, fun pos =>
        ⟨by dsimp only; ring, Int.ofNat.inj, by dsimp only at *; omega, by dsimp only at *; omega⟩⟩⟩
    · rw [max_eq_right less.le]
      exact ⟨_, .inr ⟨way, Int.ofNat_lt.mpr less,
        ⟨by dsimp only; ring, Int.ofNat.inj, by dsimp only; omega, by dsimp only; omega⟩⟩⟩
  obtain ⟨points, plotted, length, last, chain⟩ := on.plot enough
  exact ⟨_, plotted, congrArg Nat.succ length, rfl, last, chain⟩

theorem gfxLine_falling : ∃ points, gfxLine 6 2 7 (-1) 2 = some points ∧ points.length = 6 ∧
    points.head? = some (2, 7) ∧ points.getLast? = some (-1, 2) ∧ points.IsChain (Adjacent 3 5) :=
  gfxLine_plots 2 7 (-1) 2 (by decide) 6 (by decide)

end Xos.Graphics
