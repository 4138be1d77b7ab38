import Xos.Lib.Pool
import Xos.Lib.StableSort
import Xos.Scheduler.Ring

/-!
# The sleep queue (`scheduler.c`)

Sleeping tasks stand in an array, sorted by the tick at which they wake up. Each entry is handed to `task_set_ready` by
the first call whose tick reaches it.
-/
namespace Xos.Scheduler

open Lib Memory Relation Outcome Function List Prod

structure SleepQueueEntry where
  t : Nat
  wakeTick : Nat
  deriving DecidableEq, Repr

def sleepQueueMax : Nat := 256

/-- `g_sleep_queue` and `g_sleep_queue_len`. -/
structure SleepQueue where
  entries : Nat → SleepQueueEntry
  len : Nat

/-- The loop of `sleep_queue_enqueue` from `i` down, with the place it ends at. -/
def shiftLater (wakeTick : Nat) : Nat → (Nat → SleepQueueEntry) → (Nat → SleepQueueEntry) × Nat
  | 0, entries => (entries, 0)
  | i + 1, entries =>
    if wakeTick < (entries i).wakeTick then shiftLater wakeTick i (update entries (i + 1) (entries i))
    else (entries, i + 1)

def sleepQueueEnqueue (q : SleepQueue) (t wakeTick : Nat) : SleepQueue × Bool :=
  if sleepQueueMax ≤ q.len then (q, false)
  else
    let (entries, i) := shiftLater wakeTick q.len q.entries
    ({ entries := update entries i ⟨t, wakeTick⟩, len := q.len + 1 }, true)

/-- The first loop of `sleep_queue_wake` from `i` on, with so many entries left. The entries whose tasks
it hands to `task_set_ready` are returned. -/
def wakeDue (entries : Nat → SleepQueueEntry) (tick : Nat) : Nat → Nat → Kernel → Outcome (Kernel × List SleepQueueEntry)
  | 0, _, k => pure (k, [])
  | left + 1, i, k => do
    if (entries i).wakeTick ≤ tick then
      let k ← taskSetReady k (entries i).t
      let (k, handed) ← wakeDue entries tick left (i + 1) k
      pure (k, entries i :: handed)
    else
      pure (k, [])

/-- The second loop of `sleep_queue_wake` from `j` on, which moves the entries down by `i`. -/
def moveDown (i : Nat) : Nat → Nat → (Nat → SleepQueueEntry) → Nat → SleepQueueEntry
  | 0, _, entries => entries
  | left + 1, j, entries => moveDown i left (j + 1) (update entries j (entries (i + j)))

/-- `sleep_queue_wake`, with the entries whose tasks it hands to `task_set_ready`. -/
def sleepQueueWake (k : Kernel) (q : SleepQueue) (currentTick : Nat) : Outcome (Kernel × SleepQueue × List SleepQueueEntry) := do
  let (k, handed) ← wakeDue q.entries currentTick q.len 0 k
  let i := handed.length
  if 0 < i then
    let len := q.len - i
    pure (k, { entries := moveDown i len 0 q.entries, len := len }, handed)
  else
    pure (k, q, handed)

def SleepQueue.items (q : SleepQueue) : List SleepQueueEntry := (List.range q.len).map q.entries

section Loops

variable {entries : Nat → SleepQueueEntry}

theorem shiftLater_le (entries : Nat → SleepQueueEntry) (wakeTick n : Nat) : (shiftLater wakeTick n entries).2 ≤ n := by
  induction n generalizing entries with
  | zero => exact Nat.le_refl _
  | succ n ih =>
    rw [shiftLater]
    split
    · exact Nat.le_succ_of_le (ih _)
    · exact Nat.le_refl _

theorem shiftLater_above {wakeTick n m : Nat} (above : n < m) : (shiftLater wakeTick n entries).1 m = entries m := by
  induction n generalizing entries with
  | zero => rfl
  | succ n ih =>
    rw [shiftLater]
    split
    · rw [ih (by omega), update_of_ne (by omega)]
    · rfl

/-- The new entry comes before the later ones, and the one before it is not later. -/
theorem shiftLater_items (entries : Nat → SleepQueueEntry) (x : SleepQueueEntry) (n : Nat) : ∃ front back,
    (List.range n).map entries = front ++ back ∧
    (List.range (n + 1)).map (update (shiftLater x.wakeTick n entries).1 (shiftLater x.wakeTick n entries).2 x) =
      front ++ x :: back ∧
    (∀ b ∈ back, x.wakeTick < b.wakeTick) ∧ (front = [] ∨ ∃ init a, front = init ++ [a] ∧ a.wakeTick ≤ x.wakeTick) := by
  induction n generalizing entries with
  | zero => exact ⟨[], [], rfl, by simp [shiftLater], by simp, .inl rfl⟩
  | succ n ih =>
    rw [shiftLater]
    split
    next later =>
      -- the last entry moves one place up, and the loop goes on below it
      obtain ⟨front, back, before, after, behind, last⟩ := ih (update entries (n + 1) (entries n))
      have same : (List.range n).map (update entries (n + 1) (entries n)) = (List.range n).map entries := by
        apply map_congr_left
        intro j inside
        exact update_of_ne (by simp at inside; omega) ..
      have top : update (shiftLater x.wakeTick n (update entries (n + 1) (entries n))).1
          (shiftLater x.wakeTick n (update entries (n + 1) (entries n))).2 x (n + 1) = entries n := by
        have place := shiftLater_le (update entries (n + 1) (entries n)) x.wakeTick n
        rw [update_of_ne (by omega), shiftLater_above (Nat.lt_succ_self n), update_self]
      refine ⟨front, back ++ [entries n], ?_, ?_, ?_, last⟩
      · rw [range_succ, map_append, ← same, before, map_singleton, append_assoc]
      · rw [range_succ, map_append, after, map_singleton, top, append_assoc, cons_append]
      · simpa [or_imp, forall_and] using ⟨behind, later⟩
    next due =>
      refine ⟨(List.range (n + 1)).map entries, [], by simp, ?_, by simp, .inr ?_⟩
      · rw [range_succ, map_append, map_singleton, update_self]
        congr 1
        apply map_congr_left
        intro j inside
        exact update_of_ne (by simp at inside; omega) ..
      · exact ⟨(List.range n).map entries, entries n, by simp [range_succ], Nat.le_of_not_lt due⟩

theorem wakeDue_items {tick left i : Nat} {k k' : Kernel} {handed : List SleepQueueEntry}
    (ret : wakeDue entries tick left i k = .ok (k', handed)) : ∃ back,
    (List.range' i left).map entries = handed ++ back ∧ (∀ a ∈ handed, a.wakeTick ≤ tick) ∧
    (back = [] ∨ ∃ b rest, back = b :: rest ∧ tick < b.wakeTick) := by
  induction left generalizing i k handed with
  | zero =>
    obtain ⟨-, rfl⟩ := ok_inj ret
    exact ⟨[], rfl, by simp, .inl rfl⟩
  | succ left ih =>
    rw [wakeDue] at ret
    split at ret
    next due =>
      obtain ⟨woken, ⟨after, rest⟩, -, goesOn, ret⟩ := of_bind₂ ret
      obtain ⟨rfl, rfl⟩ := ok_inj ret
      obtain ⟨back, split, all, next⟩ := ih goesOn
      refine ⟨back, ?_, ?_, next⟩
      · rw [range'_succ, map_cons, split, cons_append]
      · simpa using ⟨due, all⟩
    next later =>
      obtain ⟨-, rfl⟩ := ok_inj ret
      refine ⟨(List.range' i (left + 1)).map entries, rfl, by simp, .inr ?_⟩
      exact ⟨entries i, (List.range' (i + 1) left).map entries, by rw [range'_succ, map_cons], Nat.lt_of_not_le later⟩

/-- The places from `j` on get the entries that are `i` further up. -/
theorem moveDown_apply {i : Nat} (pos : 0 < i) (left j m : Nat) : moveDown i left j entries m =
    if j ≤ m ∧ m < j + left then entries (i + m) else entries m := by
  induction left generalizing j entries with
  | zero => rw [moveDown, if_neg (by omega)]
  | succ left ih =>
    rw [moveDown, ih]
    -- what the loop reads later is above what it has written
    have ahead : update entries j (entries (i + j)) (i + m) = entries (i + m) ∨ ¬(j ≤ m) := by
      by_cases low : j ≤ m
      · exact .inl (update_of_ne (by omega) ..)
      · exact .inr low
    by_cases here : m = j
    · subst here
      rw [if_neg (by omega), if_pos (by omega), update_self]
    · rw [update_of_ne here]
      by_cases inside : j + 1 ≤ m ∧ m < j + 1 + left
      · rw [if_pos inside, if_pos (by omega)]
        exact ahead.resolve_right (by omega)
      · rw [if_neg inside, if_neg (by omega)]

end Loops

section Functions

variable {q q' : SleepQueue} {t wakeTick tick : Nat} {waiting handed : List SleepQueueEntry} {k k' : Kernel}

structure SleepQueue.Holds (q : SleepQueue) (waiting : List SleepQueueEntry) : Prop where
  len : q.len ≤ sleepQueueMax
  sorted : StablySorted SleepQueueEntry.wakeTick q.items waiting

theorem sleepQueueEnqueue_items (ret : sleepQueueEnqueue q t wakeTick = (q', true)) : ∃ front back,
    q.items = front ++ back ∧ q'.items = front ++ ⟨t, wakeTick⟩ :: back ∧ q'.len ≤ sleepQueueMax ∧
    (∀ b ∈ back, wakeTick < b.wakeTick) ∧ (front = [] ∨ ∃ init a, front = init ++ [a] ∧ a.wakeTick ≤ wakeTick) := by
  rw [sleepQueueEnqueue] at ret
  split at ret
  · cases ret
  next room =>
    obtain ⟨rfl, -⟩ := mk.inj ret
    obtain ⟨front, back, before, after, order⟩ := shiftLater_items q.entries ⟨t, wakeTick⟩ q.len
    exact ⟨front, back, before, after, Nat.lt_of_not_le room, order⟩

theorem SleepQueue.Holds.enqueue (holds : q.Holds waiting) (ret : sleepQueueEnqueue q t wakeTick = (q', true)) :
    q'.Holds (waiting ++ [⟨t, wakeTick⟩]) := by
  obtain ⟨front, back, before, after, len, behind, last⟩ := sleepQueueEnqueue_items ret
  have sorted : StablySorted SleepQueueEntry.wakeTick (front ++ back) waiting := before ▸ holds.sorted
  refine ⟨len, after ▸ sorted.insert (fun a inside => ?_) behind⟩
  rcases last with rfl | ⟨init, z, rfl, notLater⟩
  · cases inside
  · -- the entries before the last one are not later than it
    have order := (pairwise_append.mp (pairwise_append.mp sorted.order).1).2.2
    rcases mem_append.mp inside with earlier | same
    · exact (order a earlier z (mem_singleton_self z)).trans notLater
    · exact mem_singleton.mp same ▸ notLater

theorem sleepQueueEnqueue_refused (ret : sleepQueueEnqueue q t wakeTick = (q', false)) : q' = q := by
  rw [sleepQueueEnqueue] at ret
  split at ret
  · exact (mk.inj ret).1.symm
  · cases (mk.inj ret).2

/-- Entries that are due are taken from the front, up to one that is not. -/
theorem sleepQueueWake_items (ret : sleepQueueWake k q tick = .ok (k', q', handed)) :
    q.items = handed ++ q'.items ∧ q'.len ≤ q.len ∧ (∀ a ∈ handed, a.wakeTick ≤ tick) ∧
      (q'.items = [] ∨ ∃ b rest, q'.items = b :: rest ∧ tick < b.wakeTick) := by
  obtain ⟨⟨woken, list⟩, loop, ret⟩ := of_bind ret
  obtain ⟨back, split, due, next⟩ := wakeDue_items loop
  rw [← range_eq_range'] at split
  dsimp only at ret
  split at ret
  next some =>
    obtain ⟨-, same⟩ := ok_inj ret
    obtain ⟨rfl, rfl⟩ := mk.inj same
    have length : list.length + back.length = q.len := by simpa using (congrArg List.length split).symm
    -- what has been moved down is what stood behind the entries that are handed out
    have moved : SleepQueue.items ⟨moveDown list.length (q.len - list.length) 0 q.entries, q.len - list.length⟩ = back := by
      have parts := split
      rw [← length, range_add, map_append] at parts
      have behind := append_inj_right parts (by simp)
      rw [← behind, SleepQueue.items, ← length, Nat.add_sub_cancel_left, List.map_map]
      apply map_congr_left
      intro j inside
      dsimp only at inside ⊢
      rw [moveDown_apply some, if_pos (by simpa using inside), Function.comp_apply]
    rw [moved]
    exact ⟨split, Nat.sub_le .., due, next⟩
  next none =>
    obtain ⟨-, same⟩ := ok_inj ret
    obtain ⟨rfl, rfl⟩ := mk.inj same
    obtain rfl : list = [] := eq_nil_of_length_eq_zero (by omega)
    have same : q.items = back := split
    exact ⟨rfl, Nat.le_refl _, due, same ▸ next⟩

theorem SleepQueue.Holds.wake (holds : q.Holds waiting) (ret : sleepQueueWake k q tick = .ok (k', q', handed)) :
    q'.Holds (waiting.filter fun entry => tick < entry.wakeTick) ∧
      StablySorted SleepQueueEntry.wakeTick handed (waiting.filter fun entry => entry.wakeTick ≤ tick) := by
  obtain ⟨split, len, due, next⟩ := sleepQueueWake_items ret
  have sorted : StablySorted SleepQueueEntry.wakeTick (handed ++ q'.items) waiting := split ▸ holds.sorted
  have later : ∀ b ∈ q'.items, tick < b.wakeTick := by
    rcases next with empty | ⟨b, rest, items, first⟩
    · simp [empty]
    · have order := (pairwise_append.mp sorted.order).2.1
      rw [items] at order ⊢
      intro b' inside
      rcases mem_cons.mp inside with rfl | inside
      · exact first
      · exact first.trans_le ((pairwise_cons.mp order).1 b' inside)
  exact ⟨⟨len.trans holds.len, sorted.beyond due later⟩, sorted.upTo due later⟩

end Functions

inductive SleepEvent where
  | accept (entry : SleepQueueEntry)
  | refuse
  | wake (tick : Nat) (handed : List SleepQueueEntry)
  deriving DecidableEq, Repr

/-- The entries that were accepted and that no later call of `sleep_queue_wake` has reached with its
tick, in the order in which they came. The last event stands first. -/
def waiting : List SleepEvent → List SleepQueueEntry
  | [] => []
  | .accept entry :: earlier => waiting earlier ++ [entry]
  | .refuse :: earlier => waiting earlier
  | .wake tick _ :: earlier => (waiting earlier).filter fun entry => tick < entry.wakeTick

structure SleepLedger where
  kernel : Kernel
  queue : SleepQueue
  history : List SleepEvent

inductive SleepStep : SleepLedger → SleepLedger → Prop
  | accept {l : SleepLedger} {q' : SleepQueue} {t wakeTick : Nat} (returned : sleepQueueEnqueue l.queue t wakeTick = (q', true)) :
      SleepStep l ⟨l.kernel, q', .accept ⟨t, wakeTick⟩ :: l.history⟩
  | refuse {l : SleepLedger} {q' : SleepQueue} {t wakeTick : Nat} (returned : sleepQueueEnqueue l.queue t wakeTick = (q', false)) :
      SleepStep l ⟨l.kernel, q', .refuse :: l.history⟩
  | wake {l : SleepLedger} {k' : Kernel} {q' : SleepQueue} {tick : Nat} {handed : List SleepQueueEntry}
      (returned : sleepQueueWake l.kernel l.queue tick = .ok (k', q', handed)) :
      SleepStep l ⟨k', q', .wake tick handed :: l.history⟩
  | other {l : SleepLedger} (k' : Kernel) : SleepStep l ⟨k', l.queue, l.history⟩

/-- Each call of `sleep_queue_wake` has handed out, each one once, the entries that its tick was the
first to reach: in the order of their ticks, and those of one tick in the order in which they came. -/
def Punctual (history : List SleepEvent) : Prop :=
  ∀ tick handed earlier, (.wake tick handed :: earlier) <:+ history →
    StablySorted SleepQueueEntry.wakeTick handed ((waiting earlier).filter fun entry => entry.wakeTick ≤ tick)

private theorem Punctual.cons {event : SleepEvent} {history : List SleepEvent} (punctual : Punctual history)
    (now : ∀ tick handed, event = .wake tick handed →
      StablySorted SleepQueueEntry.wakeTick handed ((waiting history).filter fun entry => entry.wakeTick ≤ tick)) :
    Punctual (event :: history) := by
  intro tick handed earlier suffix
  rcases suffix_cons_iff.mp suffix with same | before
  · obtain ⟨rfl, rfl⟩ := List.cons.inj same
    exact now tick handed rfl
  · exact punctual tick handed earlier before

private theorem SleepStep.kept {l l' : SleepLedger} (kept : l.queue.Holds (waiting l.history) ∧ Punctual l.history)
    (step : SleepStep l l') : l'.queue.Holds (waiting l'.history) ∧ Punctual l'.history := by
  obtain ⟨holds, punctual⟩ := kept
  cases step with
  | accept ret => exact ⟨holds.enqueue ret, punctual.cons fun _ _ other => by cases other⟩
  | refuse ret =>
    rw [sleepQueueEnqueue_refused ret]
    exact ⟨holds, punctual.cons fun _ _ other => by cases other⟩
  | wake ret =>
    obtain ⟨rest, out⟩ := holds.wake ret
    refine ⟨rest, punctual.cons fun tick handed same => ?_⟩
    obtain ⟨rfl, rfl⟩ := SleepEvent.wake.inj same
    exact out
  | other k' => exact ⟨holds, punctual⟩

/-- In every run from an empty queue the queue is sorted and not longer than its array, it holds the
entries that wait, and every accepted entry is handed out once, by the first call whose tick reaches it. -/
theorem sleepers_woken_in_order (k : Kernel) (entries : Nat → SleepQueueEntry) (l : SleepLedger)
    (run : ReflTransGen SleepStep ⟨k, ⟨entries, 0⟩, []⟩ l) :
    (l.queue.items.Pairwise fun a b => a.wakeTick ≤ b.wakeTick) ∧ l.queue.len ≤ sleepQueueMax ∧
      l.queue.items.Perm (waiting l.history) ∧ Punctual l.history := by
  have start : SleepQueue.Holds ⟨entries, 0⟩ [] ∧ Punctual [] := by
    refine ⟨⟨Nat.zero_le _, .nil _⟩, fun tick handed earlier suffix => ?_⟩
    cases suffix_nil.mp suffix
  obtain ⟨holds, punctual⟩ := invariant_of_run
    (fun l : SleepLedger => l.queue.Holds (waiting l.history) ∧ Punctual l.history) (fun _ _ kept step => step.kept kept) run start
  exact ⟨holds.sorted.order, holds.len, holds.sorted.perm, punctual⟩

private def sleepers : Kernel :=
  ((emptyKernel.setTask 0x20 (plainTask 1 0)).setTask 0x30 (plainTask 2 0)).setTask 0x40 (plainTask 3 0)

def threeAsleep : SleepQueue :=
  (sleepQueueEnqueue (sleepQueueEnqueue (sleepQueueEnqueue ⟨fun _ => ⟨0, 0⟩, 0⟩ 0x20 5).1 0x30 3).1 0x40 5).1

theorem sleepers_wake : (sleepQueueWake sleepers threeAsleep 4 >>= fun first =>
    sleepQueueWake first.1 first.2.1 5 >>= fun second => pure (first.2.2, second.2.2)) = .ok ([⟨0x30, 3⟩], [⟨0x20, 5⟩, ⟨0x40, 5⟩]) := by
  decide +kernel

/-- One task is woken up at tick 4 and two at tick 5. -/
theorem three_sleepers_woken : ∃ l, ReflTransGen SleepStep ⟨sleepers, ⟨fun _ => ⟨0, 0⟩, 0⟩, []⟩ l ∧
    l.history = [.wake 5 [⟨0x20, 5⟩, ⟨0x40, 5⟩], .wake 4 [⟨0x30, 3⟩], .accept ⟨0x40, 5⟩, .accept ⟨0x30, 3⟩, .accept ⟨0x20, 5⟩] ∧
    l.queue.len ≤ sleepQueueMax ∧ l.queue.items.Perm [] ∧ Punctual l.history := by
  obtain ⟨⟨k₁, q₁, handed₁⟩, first, rest⟩ := of_bind sleepers_wake
  obtain ⟨⟨k₂, q₂, handed₂⟩, second, seen⟩ := of_bind rest
  obtain ⟨rfl, rfl⟩ := ok_inj seen
  have asleep : ReflTransGen SleepStep ⟨sleepers, ⟨fun _ => ⟨0, 0⟩, 0⟩, []⟩
      ⟨sleepers, threeAsleep, [.accept ⟨0x40, 5⟩, .accept ⟨0x30, 3⟩, .accept ⟨0x20, 5⟩]⟩ :=
    .tail (.tail (.single (.accept rfl)) (.accept rfl)) (.accept rfl)
  have steps := (asleep.tail (.wake first)).tail (.wake second)
  obtain ⟨-, len, perm, punctual⟩ := sleepers_woken_in_order sleepers _ _ steps
  exact ⟨_, steps, rfl, len, perm, punctual⟩

end Xos.Scheduler
