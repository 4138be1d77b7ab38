import Xos.Lib.Fifo

/-!
# `RING_BUF` (`kernel/utils/ring_buf.h`)

The macro makes a queue of an array and two indices. One cell stays free, which tells full from empty.
-/
namespace Xos.Net

open Function Lib List

variable {α : Type} {cap : Nat}

/-- What `RING_BUF(name, type, cap)` declares. -/
structure RingBuf (α : Type) where
  items : Nat → α
  head : Nat
  tail : Nat

inductive RingOp (α : Type) where
  | write (item : α)
  | read

/-- What a call returns, and what it stores through `out`. -/
abbrev RingReply (α : Type) := Bool × Option α

namespace RingBuf

def write (cap : Nat) (q : RingBuf α) (item : α) : RingReply α × RingBuf α :=
  if (q.head + 1) % cap = q.tail then ((false, none), q)
  else ((true, none), { q with items := update q.items q.head item, head := (q.head + 1) % cap })

def read (cap : Nat) (q : RingBuf α) : RingReply α × RingBuf α :=
  if q.head = q.tail then ((false, none), q)
  else ((true, some (q.items q.tail)), { q with tail := (q.tail + 1) % cap })

def call (cap : Nat) (q : RingBuf α) : RingOp α → RingReply α × RingBuf α
  | .write item => q.write cap item
  | .read => q.read cap

end RingBuf

/-- The same calls on a queue that holds at most `most` items. -/
def fifoCall (most : Nat) (held : List α) : RingOp α → RingReply α × List α
  | .write item => if held.length = most then ((false, none), held) else ((true, none), held ++ [item])
  | .read => ((!held.isEmpty, held.head?), held.tail)

/-- The replies to a sequence of calls, and the state behind it. -/
def calls {σ : Type} (call : σ → RingOp α → RingReply α × σ) (s : σ) : List (RingOp α) → List (RingReply α) × σ
  | [] => ([], s)
  | op :: ops => ((call s op).1 :: (calls call (call s op).2 ops).1, (calls call (call s op).2 ops).2)

namespace RingBuf

def held (cap : Nat) (q : RingBuf α) : List α := ring q.items cap q.head q.tail

structure Valid (cap : Nat) (q : RingBuf α) : Prop where
  head : q.head < cap
  tail : q.tail < cap

variable {q : RingBuf α}

/-- What a caller gets that tests the result of a read. -/
def next (cap : Nat) (q : RingBuf α) : Option (α × RingBuf α) :=
  (q.read cap).1.2.map fun item => (item, (q.read cap).2)

/-- One call does to the buffer what it does to the queue that the buffer holds. -/
theorem Valid.call (valid : q.Valid cap) (op : RingOp α) :
    (q.call cap op).2.Valid cap ∧ ((q.call cap op).1, (q.call cap op).2.held cap) = fifoCall (cap - 1) (q.held cap) op := by
  have next (i : Nat) : (i + 1) % cap < cap := Nat.mod_lt _ (Nat.zero_lt_of_lt valid.head)
  cases op with
  | write item =>
    have count : (q.head + 1) % cap = q.tail ↔ (q.held cap).length + 1 = cap := ring_full valid.head valid.tail
    have full : (q.head + 1) % cap = q.tail ↔ (q.held cap).length = cap - 1 := by
      have := valid.head
      omega
    rw [RingBuf.call, write, fifoCall]
    by_cases stop : (q.head + 1) % cap = q.tail
    · rw [if_pos stop, if_pos (full.mp stop)]
      exact ⟨valid, rfl⟩
    · rw [if_neg stop, if_neg (full.not.mp stop)]
      exact ⟨⟨next _, valid.tail⟩, congrArg (Prod.mk _) (ring_push valid.head valid.tail stop item)⟩
  | read =>
    rw [RingBuf.call, read, fifoCall]
    split
    next empty =>
      have nothing : q.held cap = [] := (ring_eq_nil valid.head valid.tail).mpr empty
      rw [nothing]
      exact ⟨valid, rfl⟩
    next some =>
      have first : q.held cap = q.items q.tail :: _ := ring_pop valid.head valid.tail some
      rw [first]
      exact ⟨⟨valid.head, next _⟩, rfl⟩

theorem Valid.write (valid : q.Valid cap) (item : α) : (q.write cap item).2.Valid cap ∧
    (q.write cap item).2.held cap = if (q.head + 1) % cap = q.tail then q.held cap else q.held cap ++ [item] := by
  refine ⟨(valid.call (.write item)).1, ?_⟩
  rw [RingBuf.write]
  split
  next => rfl
  next room => exact ring_push valid.head valid.tail room item

theorem Valid.next_nil (valid : q.Valid cap) (empty : q.held cap = []) : q.next cap = none := by
  rw [next, read, if_pos ((ring_eq_nil valid.head valid.tail).mp empty), Option.map_none]

theorem Valid.next_cons (valid : q.Valid cap) {first : α} {rest : List α} (some : q.held cap = first :: rest) :
    ∃ q', q.next cap = .some (first, q') ∧ q'.Valid cap ∧ q'.held cap = rest := by
  obtain ⟨still, same⟩ := valid.call .read
  rw [some] at same
  obtain ⟨reply, others⟩ := Prod.mk.inj same
  exact ⟨_, congrArg (fun reply => reply.2.map fun item => (item, (q.read cap).2)) reply, still, others⟩

theorem Valid.calls (valid : q.Valid cap) (ops : List (RingOp α)) : (calls (RingBuf.call cap) q ops).2.Valid cap ∧
    ((calls (RingBuf.call cap) q ops).1, (calls (RingBuf.call cap) q ops).2.held cap) =
      calls (fifoCall (cap - 1)) (q.held cap) ops := by
  induction ops generalizing q with
  | nil => exact ⟨valid, rfl⟩
  | cons op ops ih =>
    obtain ⟨still, same⟩ := valid.call op
    obtain ⟨later, rest⟩ := ih still
    simp only [Net.calls, ← same, ← rest]
    exact ⟨later, trivial⟩

end RingBuf

/-- From `head = tail = 0` the replies are those of a queue for `cap - 1` items, and the indices stay inside. -/
theorem ringBuf_fifo (positive : 1 ≤ cap) (items : Nat → α) (ops : List (RingOp α)) :
    ((calls (RingBuf.call cap) ⟨items, 0, 0⟩ ops).1, (calls (RingBuf.call cap) ⟨items, 0, 0⟩ ops).2.held cap) =
      calls (fifoCall (cap - 1)) [] ops ∧ (calls (RingBuf.call cap) ⟨items, 0, 0⟩ ops).2.Valid cap := by
  have initial : RingBuf.Valid cap (⟨items, 0, 0⟩ : RingBuf α) := ⟨positive, positive⟩
  have nothing : RingBuf.held cap (⟨items, 0, 0⟩ : RingBuf α) = [] := (ring_eq_nil positive positive).mpr rfl
  rw [← nothing]
  exact (initial.calls ops).symm

theorem ringBuf_two_cells : (calls (RingBuf.call 2) ⟨fun _ => 0, 0, 0⟩ [.write 5, .write 6, .read, .read]).1 =
    [(true, none), (false, none), (true, some 5), (false, none)] :=
  congrArg Prod.fst (ringBuf_fifo (show 1 ≤ 2 by decide) (fun _ => 0) [.write 5, .write 6, .read, .read]).1

end Xos.Net
