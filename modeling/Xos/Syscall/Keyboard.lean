import Xos.Lib.Fifo
import Xos.Syscall.Sleep

/-!
# The queue of key events (`keyboard.c`)

A read returns the first entry and moves the others down, with the entry behind the last one. When all eight are in use,
that one is not part of the array.
-/
namespace Xos.Syscall

open Lib Outcome Function List

def Keyboard.events (keyboard : Keyboard) : List KeyEvent := (List.range keyboard.keyQueueLen).map keyboard.keyQueue

/-- The indices at which `keyboard_read` uses `s_key_queue`. -/
def Keyboard.readIndices (keyboard : Keyboard) : List Nat :=
  0 :: (List.range keyboard.keyQueueLen).flatMap fun i => [i, i + 1]

inductive KeyCall where
  | key (ev : KeyEvent)
  | read
  deriving DecidableEq, Repr

/-- A call, with the events that it returns and the indices at which they were read. The callers of `on_key_event`
check that there is a key code. -/
def keyCall (s : System) : KeyCall → Outcome (System × List (KeyEvent × List Nat))
  | .key ev => do pure (← arrive s (.key ev), [])
  | .read => pure (sysReadKeyNb s, [((keyboardRead s.keyboard).2, s.keyboard.readIndices)])

def keyCalls : List KeyCall → System → Outcome (System × List (KeyEvent × List Nat))
  | [], s => pure (s, [])
  | call :: rest, s => do
    let first ← keyCall s call
    let others ← keyCalls rest first.1
    pure (others.1, first.2 ++ others.2)

/-- The same call on a queue that takes eight events, with what a read should find. -/
def fifoCall (queue : Stream KeyEvent) : KeyCall → Stream KeyEvent × List (Option KeyEvent)
  | .key ev => (if ev.code ≠ keyNone then queue.write maxKeyevents [ev] else queue, [])
  | .read => (queue.read 1, [queue.items.head?])

def fifoCalls : List KeyCall → Stream KeyEvent → Stream KeyEvent × List (Option KeyEvent)
  | [], queue => (queue, [])
  | call :: rest, queue =>
    let others := fifoCalls rest (fifoCall queue call).1
    (others.1, (fifoCall queue call).2 ++ others.2)

/-- What the caller of `keyboard_read` sees in an event. -/
def KeyEvent.seen (ev : KeyEvent) : Option KeyEvent := if ev.code = keyNone then none else some ev

/-- No event is read while eight are queued. -/
def NeverReadFull : List KeyCall → Stream KeyEvent → Prop
  | [], _ => True
  | call :: rest, queue => (call = .read → queue.items.length < maxKeyevents) ∧ NeverReadFull rest (fifoCall queue call).1

structure Keyboard.Holds (keyboard : Keyboard) (items : List KeyEvent) : Prop where
  idle : keyboard.readingTask = 0
  events : keyboard.events = items
  room : keyboard.keyQueueLen ≤ maxKeyevents
  coded : ∀ ev ∈ items, ev.code ≠ keyNone
  blank : ∀ i, keyboard.keyQueueLen ≤ i → i < maxKeyevents → (keyboard.keyQueue i).code = keyNone

variable {s : System} {queue : Stream KeyEvent} {keyboard : Keyboard} {items : List KeyEvent}

theorem Keyboard.Holds.length (holds : keyboard.Holds items) : items.length = keyboard.keyQueueLen := by
  simp [← holds.events, Keyboard.events]

theorem shiftDown_apply (slots : Nat → KeyEvent) (n j : Nat) :
    (List.range n).foldl (fun slots i => update slots i (slots (i + 1))) slots j =
      if j < n then slots (j + 1) else slots j := by
  induction n generalizing j with
  | zero => rfl
  | succ n ih =>
    rw [range_succ, foldl_append, foldl_cons, foldl_nil, update_apply, ih, ih]
    grind

theorem onKeyEvent_holds {ev : KeyEvent} (holds : s.keyboard.Holds items) (code : ev.code ≠ keyNone) :
    ∃ s', onKeyEvent s ev = .ok s' ∧ s'.keyboard.Holds (items ++ [ev].take (maxKeyevents - items.length)) := by
  rw [holds.length]
  unfold onKeyEvent
  dsimp only
  split
  next free =>
    rw [if_neg (by simp [holds.idle]), take_of_length_le (by simp only [length_singleton]; omega)]
    refine ⟨_, rfl, holds.idle, ?_, free, ?_, ?_⟩
    · -- the entries in front of the new one are as they were
      simp only [← holds.events, Keyboard.events, range_succ, map_append, map_singleton, update_self]
      congr 1
      apply map_congr_left
      intro i inside
      exact update_of_ne (mem_range.mp inside).ne ..
    · intro other mem
      rcases mem_append.mp mem with old | new
      · exact holds.coded other old
      · rw [mem_singleton.mp new]
        exact code
    · intro i above inside
      simp only at above ⊢
      rw [update_of_ne (by omega)]
      exact holds.blank i (by omega) inside
  next full =>
    rw [if_neg (by simp [holds.idle]), Nat.sub_eq_zero_of_le (Nat.le_of_not_lt full), take_zero, append_nil]
    exact ⟨_, rfl, holds⟩

theorem keyboardRead_holds (holds : keyboard.Holds items) (short : items.length < maxKeyevents) :
    (keyboardRead keyboard).1.Holds (items.drop 1) := by
  have count := holds.length
  unfold keyboardRead
  split
  next some =>
    refine ⟨holds.idle, ?_, ?_, fun ev mem => holds.coded ev (mem_of_mem_drop mem), ?_⟩
    · obtain ⟨n, more⟩ := Nat.exists_eq_succ_of_ne_zero some
      have rest : items.drop 1 = (List.range n).map fun i => keyboard.keyQueue (i + 1) := by
        rw [← holds.events, Keyboard.events, more, range_succ_eq_map, map_cons, drop_one, tail_cons, map_map]
        rfl
      rw [rest]
      simp only [Keyboard.events, more, Nat.succ_eq_add_one, Nat.add_sub_cancel]
      apply map_congr_left
      intro i inside
      rw [shiftDown_apply, if_pos (Nat.lt_succ_of_lt (mem_range.mp inside))]
    · exact (Nat.sub_le ..).trans holds.room
    · intro i above inside
      simp only at above ⊢
      rw [shiftDown_apply]
      -- only the last entry in use gets what stands behind it
      split
      · exact holds.blank (i + 1) (by omega) (by omega)
      · exact holds.blank i (by omega) inside
  next none =>
    have empty : items = [] := length_eq_zero_iff.mp (by omega)
    subst empty
    exact holds

theorem keyboardRead_seen (holds : keyboard.Holds items) : (keyboardRead keyboard).2.seen = items.head? := by
  have first : (keyboardRead keyboard).2 = keyboard.keyQueue 0 := by
    unfold keyboardRead
    split <;> rfl
  rw [first, KeyEvent.seen]
  have events := holds.events
  cases count : keyboard.keyQueueLen with
  | zero =>
    rw [if_pos (holds.blank 0 count.le (by decide)), ← events]
    simp [Keyboard.events, count]
  | succ n =>
    simp only [Keyboard.events, count, range_succ_eq_map, map_cons] at events
    rw [← events, head?_cons, if_neg]
    exact holds.coded _ (by simp [← events])

theorem readIndices_lt (short : keyboard.keyQueueLen < maxKeyevents) : ∀ i ∈ keyboard.readIndices, i < maxKeyevents := by
  intro i mem
  simp only [Keyboard.readIndices, mem_cons, mem_flatMap, mem_range, not_mem_nil, or_false] at mem
  rcases mem with rfl | ⟨j, inside, rfl | rfl⟩ <;> omega

theorem keyCall_holds (call : KeyCall) (holds : s.keyboard.Holds queue.items)
    (short : call = .read → queue.items.length < maxKeyevents) :
    ∃ s' reads, keyCall s call = .ok (s', reads) ∧ s'.keyboard.Holds (fifoCall queue call).1.items ∧
      reads.map (·.1.seen) = (fifoCall queue call).2 ∧ ∀ r ∈ reads, ∀ i ∈ r.2, i < maxKeyevents := by
  cases call with
  | key ev =>
    by_cases code : ev.code ≠ keyNone
    · obtain ⟨s', called, held⟩ := onKeyEvent_holds holds code
      refine ⟨s', [], ?_, ?_, rfl, by simp⟩
      · simp only [keyCall, arrive, if_pos code, called, ok_bind, pure_eq_ok]
      · rw [fifoCall, if_pos code]
        exact held
    · refine ⟨s, [], ?_, ?_, rfl, by simp⟩
      · simp only [keyCall, arrive, if_neg code, ok_bind, pure_eq_ok]
      · rw [fifoCall, if_neg code]
        exact holds
  | read =>
    refine ⟨_, _, rfl, keyboardRead_holds holds (short rfl), ?_, ?_⟩
    · simp only [map_singleton, keyboardRead_seen holds, fifoCall]
    · intro r only
      rw [mem_singleton.mp only]
      exact readIndices_lt (holds.length ▸ short rfl)

/-- The array is a queue of eight events that drops those for which there is no room, if it is never read while it
is full: every call returns, the reads return the events in order, and an event without a key code exactly when
there is none. -/
theorem keyboard_is_bounded_fifo {calls : List KeyCall} (holds : s.keyboard.Holds queue.items)
    (allowed : NeverReadFull calls queue) :
    ∃ s' reads, keyCalls calls s = .ok (s', reads) ∧ s'.keyboard.Holds (fifoCalls calls queue).1.items ∧
      reads.map (·.1.seen) = (fifoCalls calls queue).2 ∧ ∀ r ∈ reads, ∀ i ∈ r.2, i < maxKeyevents := by
  induction calls generalizing s queue with
  | nil => exact ⟨s, [], rfl, holds, rfl, by simp⟩
  | cons call rest ih =>
    obtain ⟨mid, first, called, held, seen, bound⟩ := keyCall_holds call holds allowed.1
    obtain ⟨s', others, calledRest, heldRest, seenRest, boundRest⟩ := ih held allowed.2
    refine ⟨s', first ++ others, ?_, heldRest, ?_, ?_⟩
    · simp only [keyCalls, called, calledRest, ok_bind, pure_eq_ok]
    · rw [map_append, seen, seenRest, fifoCalls]
    · intro r member
      rcases mem_append.mp member with one | other
      · exact bound r one
      · exact boundRest r other

def freshKeys : System := { twoTasks with
  keyboard := ⟨fun i => if i = maxKeyevents then ⟨3, 0x63⟩ else ⟨keyNone, 0⟩, 0, 0⟩ }

def noKeys : Stream KeyEvent := ⟨[], [], [], rfl⟩

theorem freshKeys_hold : freshKeys.keyboard.Holds noKeys.items where
  idle := rfl
  events := rfl
  room := Nat.zero_le _
  coded := by simp [noKeys]
  blank := by
    intro i _ inside
    simp [freshKeys, inside.ne]

theorem two_keys_read : ∃ s' reads, keyCalls [.key ⟨1, 0x61⟩, .read, .key ⟨1, 0x62⟩, .read, .read] freshKeys = .ok (s', reads) ∧
    reads.map (·.1.seen) = [some ⟨1, 0x61⟩, some ⟨1, 0x62⟩, none] := by
  have allowed : NeverReadFull [.key ⟨1, 0x61⟩, .read, .key ⟨1, 0x62⟩, .read, .read] noKeys := by
    simp [NeverReadFull]
    decide
  obtain ⟨s', reads, called, -, seen, -⟩ := keyboard_is_bounded_fifo freshKeys_hold allowed
  exact ⟨s', reads, called, seen⟩

/-- A read of the full queue uses the entry behind the array, and once the eight events are read, a read of the empty
queue returns what stood there. -/
theorem full_queue_read_past_end : freshKeys.keyboard.Holds noKeys.items ∧
    ∃ s' reads, keyCalls (List.replicate 8 (.key ⟨1, 0x61⟩) ++ List.replicate 9 .read) freshKeys = .ok (s', reads) ∧
      (∃ r ∈ reads, ∃ i ∈ r.2, ¬i < maxKeyevents) ∧ reads.getLast?.map (·.1) = some ⟨3, 0x63⟩ ∧
      (fifoCalls (List.replicate 8 (.key ⟨1, 0x61⟩) ++ List.replicate 9 .read) noKeys).2.getLast? = some none := by
  have run : (keyCalls (List.replicate 8 (.key ⟨1, 0x61⟩) ++ List.replicate 9 .read) freshKeys >>= fun r =>
      pure (decide (∃ read ∈ r.2, ∃ i ∈ read.2, ¬i < maxKeyevents), r.2.getLast?.map (·.1))) =
      .ok (true, some ⟨3, 0x63⟩) := by decide +kernel
  obtain ⟨⟨s', reads⟩, called, seen⟩ := of_bind run
  simp only [ok_pair, decide_eq_true_eq] at seen
  exact ⟨freshKeys_hold, s', reads, called, seen.1, seen.2, by decide⟩

end Xos.Syscall
