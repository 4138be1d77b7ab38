import Xos.Syscall.Sleep

/-!
# The clock (`timer.c`, `time.c`)

The interrupts of the timer are counted in an `int`, which `time_unix`, `SYS_SLEEP` and `sleep_queue_wake` use as
an unsigned long. Up to the interrupt at which the `int` becomes negative it is the number of interrupts.
-/
namespace Xos.Syscall

open Ipc Lib Outcome Scheduler Word Relation Except Prod

/-- The frequency that `timer_init` sets. -/
def timerInit (frequency : Nat) : Nat := if frequency = 0 then 100 else frequency

/-- `time_unix`, with `g_boot_timestamp`. -/
def timeUnix (bootTimestamp : Nat) (s : System) : Nat := u64 (bootTimestamp + timerGetTicks s / s.timerFrequency)

def System.clock (s : System) : SleepQueue × Nat × Nat := (s.sleepQueue, s.timerTicks, s.timerFrequency)

variable {s s' : System} {polled : List Arrival}

theorem timerGetTicks_of_lt {n : Nat} (shown : s.timerTicks = u32 n) (early : n < 2 ^ 31) : timerGetTicks s = n := by
  rw [timerGetTicks, shown, u32_of_lt (by omega), i32_of_lt early, sext64_natCast (by omega)]

theorem u32_succ (n : Nat) : u32 (u32 n + 1) = u32 (n + 1) := by
  unfold u32
  omega

theorem arrive_clock (arrival : Arrival) : Ensures (arrive s arrival) (·.clock = s.clock) := by
  cases arrival with
  | key ev =>
    refine .ite (fun _ => ?_) fun _ => .pure rfl
    exact .ite (fun _ => .read fun _ _ => .pure rfl) fun _ => .pure rfl
  | datagram data dataLen =>
    refine .read fun _ _ => ?_
    exact .ite (fun _ => .read fun _ _ => .pure rfl) fun _ => .pure rfl

theorem arriveAll_clock (polled : List Arrival) : Ensures (polled.foldlM arrive s) (·.clock = s.clock) := by
  induction polled generalizing s with
  | nil => exact .pure rfl
  | cons arrival polled ih =>
    rw [List.foldlM_cons]
    exact .bind (arrive_clock arrival) fun mid kept => ih.mono fun _ same => same.trans kept

/-- An interrupt counts on and wakes up the tasks that are due by what the counter then shows. -/
theorem timerHandler_clock (ret : timerHandler s polled = .ok s') : ∃ k q handed,
    sleepQueueWake s.kernel s.sleepQueue (nextTick s) = .ok (k, q, handed) ∧
      s'.clock = (q, u32 (s.timerTicks + 1), s.timerFrequency) := by
  obtain ⟨⟨k, q, handed⟩, woken, rest⟩ := of_bind ret
  obtain ⟨mid, arrived, last⟩ := of_bind rest
  refine ⟨k, q, handed, woken, Eq.trans ?_ (arriveAll_clock polled mid arrived)⟩
  split at last
  · obtain ⟨ipc, -, same⟩ := of_bind last
    rw [← ok.inj same]
    rfl
  · rw [← ok.inj last]

theorem sysSleep_clock {ms : Nat} (ret : sysSleep s ms = .ok s') :
    s'.clock = ((sleepQueueEnqueue s.sleepQueue s.kernel.currentTask (wakeupTick s ms)).1, s.timerTicks, s.timerFrequency) := by
  unfold sysSleep at ret
  dsimp only at ret
  split at ret
  all_goals
    obtain ⟨ipc, -, same⟩ := of_bind ret
    rw [← ok.inj same]
    rfl

/-- A call of `SYS_SLEEP` that was accepted: the task, the interrupts before the call, and the ticks asked for. -/
structure Request where
  t : Nat
  issued : Nat
  ticks : Nat
  deriving DecidableEq, Repr

def Request.entry (r : Request) : SleepQueueEntry := ⟨r.t, r.issued + r.ticks⟩

structure ClockLedger where
  system : System
  interrupts : Nat
  waiting : List Request

inductive ClockStep : ClockLedger → ClockLedger → Prop
  | interrupt {l : ClockLedger} {polled : List Arrival} {s' : System} (returned : timerHandler l.system polled = .ok s') :
      ClockStep l ⟨s', l.interrupts + 1, l.waiting.filter fun r => l.interrupts + 1 < r.issued + r.ticks⟩
  | sleep {l : ClockLedger} {ms : Nat} {s' : System} (returned : sysSleep l.system ms = .ok s')
      (accepted : (sleepQueueEnqueue l.system.sleepQueue l.system.kernel.currentTask (wakeupTick l.system ms)).2 = true) :
      ClockStep l ⟨s', l.interrupts, l.waiting ++ [⟨l.system.kernel.currentTask, l.interrupts, timerMsToTicks l.system ms⟩]⟩
  | other {l : ClockLedger} {s' : System} (same : s'.clock = l.system.clock) : ClockStep l ⟨s', l.interrupts, l.waiting⟩

/-- The counter goes with the interrupts, and until it becomes negative the sleep queue holds the calls that wait. -/
structure ClockLedger.Kept (l : ClockLedger) (frequency : Nat) : Prop where
  ticks : l.system.timerTicks = u32 l.interrupts
  frequency : l.system.timerFrequency = frequency
  queue : l.interrupts < 2 ^ 31 → l.system.sleepQueue.Holds (l.waiting.map Request.entry)

variable {l l' : ClockLedger} {frequency boot : Nat}

/-- A request that is entered asks for the tick that is so many interrupts away: the sum does not wrap around. -/
theorem wakeupTick_of_lt {n ms : Nat} (shown : s.timerTicks = u32 n) (early : n < 2 ^ 31) :
    wakeupTick s ms = n + timerMsToTicks s ms := by
  have bound := u64_lt (ms * s.timerFrequency)
  rw [wakeupTick, timerGetTicks_of_lt shown early, timerMsToTicks]
  exact u64_of_lt (by omega)

theorem nextTick_of_lt {n : Nat} (shown : s.timerTicks = u32 n) (early : n + 1 < 2 ^ 31) : nextTick s = n + 1 :=
  timerGetTicks_of_lt (by rw [shown, u32_succ]) early

theorem ClockStep.kept (kept : l.Kept frequency) (step : ClockStep l l') : l'.Kept frequency := by
  cases step with
  | interrupt ret =>
    obtain ⟨k, q, handed, woken, clock⟩ := timerHandler_clock ret
    simp only [System.clock, mk.injEq] at clock
    obtain ⟨queue, ticks, same⟩ := clock
    refine ⟨by rw [ticks, kept.ticks, u32_succ], same.trans kept.frequency, fun early => ?_⟩
    rw [nextTick_of_lt kept.ticks early] at woken
    have rest := ((kept.queue (Nat.lt_of_succ_lt early)).wake woken).1
    rw [List.filter_map] at rest
    exact queue ▸ rest
  | @sleep ms _ ret accepted =>
    have clock := sysSleep_clock ret
    simp only [System.clock, mk.injEq] at clock
    obtain ⟨queue, ticks, same⟩ := clock
    refine ⟨ticks.trans kept.ticks, same.trans kept.frequency, fun early => ?_⟩
    have held := (kept.queue early).enqueue (Prod.ext rfl accepted)
    rw [wakeupTick_of_lt kept.ticks early] at held queue
    rw [List.map_append]
    exact queue ▸ held
  | other same =>
    simp only [System.clock, mk.injEq] at same
    obtain ⟨queue, ticks, same⟩ := same
    exact ⟨ticks.trans kept.ticks, same.trans kept.frequency, fun early => queue ▸ kept.queue early⟩

theorem ClockStep.interrupts_le (run : ReflTransGen ClockStep l l') : l.interrupts ≤ l'.interrupts := by
  induction run with
  | refl => exact Nat.le_refl _
  | tail _ step ih => cases step with
    | interrupt => exact Nat.le_succ_of_le ih
    | sleep => exact ih
    | other => exact ih

theorem ClockLedger.Kept.run (kept : l.Kept frequency) (run : ReflTransGen ClockStep l l') : l'.Kept frequency :=
  invariant_of_run (ClockLedger.Kept · frequency) (fun _ _ kept step => step.kept kept) run kept

theorem ClockLedger.Kept.timeUnix (kept : l.Kept frequency) (early : l.interrupts < 2 ^ 31) (room : boot + 2 ^ 31 ≤ 2 ^ 64) :
    timeUnix boot l.system = boot + l.interrupts / frequency := by
  have small := Nat.div_le_self l.interrupts frequency
  rw [Syscall.timeUnix, timerGetTicks_of_lt kept.ticks early, kept.frequency]
  exact u64_of_lt (by omega)

/-- During the first 2³¹ interrupts the time is that of the start plus the seconds since then, it does not go back,
and each interrupt wakes up the tasks that have slept, at it for the first time, as long as they asked for. -/
theorem clock_counts_interrupts {start : System} (frequency : Nat) (zero : start.timerTicks = 0) (empty : start.sleepQueue.len = 0)
    (set : start.timerFrequency = timerInit frequency) (room : boot + 2 ^ 31 ≤ 2 ^ 64)
    (run : ReflTransGen ClockStep ⟨start, 0, []⟩ l) (early : l.interrupts < 2 ^ 31) :
    timeUnix boot l.system = boot + l.interrupts / timerInit frequency ∧
      (∀ l', ReflTransGen ClockStep l l' → l'.interrupts < 2 ^ 31 → timeUnix boot l.system ≤ timeUnix boot l'.system) ∧
      ∀ k q handed, l.interrupts + 1 < 2 ^ 31 →
        sleepQueueWake l.system.kernel l.system.sleepQueue (nextTick l.system) = .ok (k, q, handed) →
        handed.Perm ((l.waiting.filter fun r => r.issued + r.ticks ≤ l.interrupts + 1).map Request.entry) := by
  have initial : ClockLedger.Kept ⟨start, 0, []⟩ (timerInit frequency) := by
    refine ⟨zero.trans (u32_of_lt (by decide)).symm, set, fun _ => ⟨by rw [empty]; exact Nat.zero_le _, ?_⟩⟩
    rw [SleepQueue.items, empty]
    exact .nil _
  have kept := initial.run run
  refine ⟨kept.timeUnix early room, fun l' more later => ?_, fun k q handed next woken => ?_⟩
  · rw [kept.timeUnix early room, (kept.run more).timeUnix later room]
    exact Nat.add_le_add_left (Nat.div_le_div_right (ClockStep.interrupts_le more)) boot
  · rw [nextTick_of_lt kept.ticks next] at woken
    have sorted := ((kept.queue early).wake woken).2
    rw [List.filter_map] at sorted
    exact sorted.perm

/-- After so many interrupts without a running scheduler, with 1000 ticks in a second. -/
def idleSystem (n : Nat) : System := { twoTasks with ipc := emptyState, timerTicks := u32 n }

theorem idle_interrupt (n : Nat) : timerHandler (idleSystem n) [] = .ok (idleSystem (n + 1)) := by
  have stopped : ¬(i32 (u32 (u32 n + 1)) % 10 = 0 ∧ false = true) := by simp
  unfold idleSystem
  rw [← u32_succ n]
  exact if_neg stopped

theorem idle_interrupts (n m : Nat) : ReflTransGen ClockStep ⟨idleSystem n, n, []⟩ ⟨idleSystem (n + m), n + m, []⟩ := by
  induction m with
  | zero => exact .refl
  | succ m ih => exact ih.tail (.interrupt (idle_interrupt (n + m)))

theorem second_counted : timeUnix 7 (idleSystem (0 + 1000)) = 8 :=
  (clock_counts_interrupts 1000 (u32_of_lt (by decide)) rfl rfl (by decide) (idle_interrupts 0 1000) (by decide)).1

/-- With the interrupt 2³¹ the counter is negative and the time is wrong, and with the interrupt 2³² it goes back. A
task that just before that asks for half a second of sleep is woken up by the next interrupt. -/
theorem negative_counter_breaks_clock :
    (∃ l l', ReflTransGen ClockStep ⟨idleSystem 0, 0, []⟩ l ∧ l.interrupts = 2 ^ 31 ∧ timeUnix 7 l.system ≠ 7 + 2 ^ 31 / 1000 ∧
      ReflTransGen ClockStep l l' ∧ timeUnix 7 l'.system < timeUnix 7 l.system) ∧
    ∃ slept k q, sysSleep { twoTasks with timerTicks := 2 ^ 31 - 1 } 500 = .ok slept ∧
      sleepQueueWake slept.kernel slept.sleepQueue (nextTick slept) = .ok (k, q, [⟨0x20, 2 ^ 31 - 1 + 500⟩]) := by
  constructor
  · refine ⟨_, _, idle_interrupts 0 (2 ^ 31), Nat.zero_add _, ?_, idle_interrupts (0 + 2 ^ 31) (2 ^ 31), ?_⟩
    · decide +kernel
    · decide +kernel
  · have run : (sysSleep { twoTasks with timerTicks := 2 ^ 31 - 1 } 500 >>= fun slept =>
        sleepQueueWake slept.kernel slept.sleepQueue (nextTick slept) >>= fun woken => pure woken.2.2) =
        .ok [⟨0x20, 2 ^ 31 - 1 + 500⟩] := by decide +kernel
    obtain ⟨slept, ⟨k, q, handed⟩, sleeps, woken, seen⟩ := of_bind₂ run
    obtain rfl := Except.ok.inj seen
    exact ⟨slept, k, q, sleeps, woken⟩

end Xos.Syscall
