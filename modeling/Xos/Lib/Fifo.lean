import Mathlib.Data.List.Range
import Mathlib.Logic.Function.Basic

/-!
# Bounded queues in circular buffers

The place of the first item and the number of items say which slots are in use. A `Stream` is such a queue with its
history.
-/
namespace Xos.Lib

open Function List

variable {α : Type*}

def circular (slot : Nat → α) (capacity start count : Nat) : List α :=
  (range count).map fun i => slot ((start + i) % capacity)

section Circular

variable {slot : Nat → α} {capacity start count : Nat}

@[simp] theorem circular_zero : circular slot capacity start 0 = [] := rfl

@[simp] theorem length_circular : (circular slot capacity start count).length = count := by
  simp [circular]

theorem slot_ne {i j : Nat} (less : i < j) (near : j < i + capacity) : (start + i) % capacity ≠ (start + j) % capacity := by
  intro same
  have divides : capacity ∣ start + j - (start + i) := Nat.dvd_of_mod_eq_zero (Nat.sub_mod_eq_zero_of_mod_eq same.symm)
  have bound := Nat.le_of_dvd (by omega) divides
  omega

theorem circular_push (room : count < capacity) (x : α) :
    circular (update slot ((start + count) % capacity) x) capacity start (count + 1) =
      circular slot capacity start count ++ [x] := by
  simp only [circular, range_succ, map_append, map_cons, map_nil, update_self]
  congr 1
  apply map_congr_left
  intro i inside
  -- the slots in use are not the one that is written
  have less : i < count := mem_range.mp inside
  exact update_of_ne (slot_ne less (by omega)) ..

theorem circular_pop : circular slot capacity start (count + 1) =
    slot (start % capacity) :: circular slot capacity ((start + 1) % capacity) count := by
  simp only [circular, range_succ_eq_map, map_cons, map_map, Nat.add_zero]
  congr 1
  apply map_congr_left
  intro i _
  simp only [Function.comp_apply, Nat.succ_eq_add_one, Nat.mod_add_mod]
  congr 2
  omega

theorem circular_append (first second : Nat) : circular slot capacity start (first + second) =
    circular slot capacity start first ++ circular slot capacity (start + first) second := by
  simp only [circular, range_add, map_append, map_map, Function.comp_def, Nat.add_assoc]

theorem circular_congr {start' : Nat} (same : start % capacity = start' % capacity) :
    circular slot capacity start count = circular slot capacity start' count := by
  apply map_congr_left
  intro i _
  rw [← Nat.mod_add_mod, same, Nat.mod_add_mod]

end Circular

/-- The items of a circular buffer that is given by the places of its first item and of the next one to come. One slot is
always left free, so that the two are equal only when there are none. -/
def ring (slot : Nat → α) (capacity head tail : Nat) : List α := circular slot capacity tail ((head + capacity - tail) % capacity)

section Ring

variable {slot : Nat → α} {capacity head tail : Nat}

section

variable (inside : head < capacity)
include inside

section

variable (start : tail < capacity)
include start

theorem ring_count : (head + capacity - tail) % capacity = if tail ≤ head then head - tail else head + capacity - tail := by
  split
  next ordered =>
    rw [show head + capacity - tail = head - tail + capacity by omega, Nat.add_mod_right, Nat.mod_eq_of_lt (by omega)]
  next => exact Nat.mod_eq_of_lt (by omega)

theorem length_ring : (ring slot capacity head tail).length = if tail ≤ head then head - tail else head + capacity - tail := by
  rw [ring, length_circular, ring_count inside start]

theorem length_ring_lt : (ring slot capacity head tail).length < capacity := by
  rw [length_ring inside start]
  split <;> omega

theorem ring_eq_nil : ring slot capacity head tail = [] ↔ head = tail := by
  rw [← length_eq_zero_iff, length_ring inside start]
  split <;> omega

end

theorem next_place : (head + 1) % capacity = if head + 1 = capacity then 0 else head + 1 := by
  split
  next last => rw [last, Nat.mod_self]
  next => exact Nat.mod_eq_of_lt (by omega)

theorem ring_full (start : tail < capacity) : (head + 1) % capacity = tail ↔
    (ring slot capacity head tail).length + 1 = capacity := by
  rw [length_ring inside start, next_place inside]
  split <;> split <;> omega

theorem ring_push (start : tail < capacity) (room : (head + 1) % capacity ≠ tail) (x : α) :
    ring (update slot head x) capacity ((head + 1) % capacity) tail = ring slot capacity head tail ++ [x] := by
  have more : ((head + 1) % capacity + capacity - tail) % capacity = (head + capacity - tail) % capacity + 1 := by
    rw [next_place inside] at room
    rw [ring_count (Nat.mod_lt _ (by omega)) start, ring_count inside start, next_place inside]
    grind
  have short : (head + capacity - tail) % capacity < capacity := Nat.mod_lt _ (by omega)
  have place : (tail + (head + capacity - tail) % capacity) % capacity = head := by
    rw [Nat.add_mod_mod, show tail + (head + capacity - tail) = head + capacity by omega, Nat.add_mod_right, Nat.mod_eq_of_lt inside]
  calc ring (update slot head x) capacity ((head + 1) % capacity) tail
      = circular (update slot ((tail + (head + capacity - tail) % capacity) % capacity) x) capacity tail
          ((head + capacity - tail) % capacity + 1) := by rw [ring, more, place]
    _ = ring slot capacity head tail ++ [x] := circular_push short x

theorem ring_pop (start : tail < capacity) (some : head ≠ tail) :
    ring slot capacity head tail = slot tail :: ring slot capacity head ((tail + 1) % capacity) := by
  have less : (head + capacity - tail) % capacity = (head + capacity - (tail + 1) % capacity) % capacity + 1 := by
    rw [ring_count inside start, ring_count inside (Nat.mod_lt _ (by omega)), next_place start]
    grind
  rw [ring, less, circular_pop, Nat.mod_eq_of_lt start]
  rfl

end

end Ring

/-- A queue with its history: what went in is what came out, and behind that what is in it. -/
structure Stream (α : Type*) where
  accepted : List α
  returned : List α
  items : List α
  balance : returned ++ items = accepted

namespace Stream

def write (capacity : Nat) (s : Stream α) (more : List α) : Stream α where
  accepted := s.accepted ++ more.take (capacity - s.items.length)
  returned := s.returned
  items := s.items ++ more.take (capacity - s.items.length)
  balance := by rw [← append_assoc, s.balance]

def read (s : Stream α) (most : Nat) : Stream α where
  accepted := s.accepted
  returned := s.returned ++ s.items.take most
  items := s.items.drop most
  balance := by rw [append_assoc, take_append_drop, s.balance]

end Stream
end Xos.Lib
