import Mathlib.Algebra.BigOperators.Group.List.Basic
import Mathlib.Tactic.IntervalCases
import Xos.Lib.Outcome
import Xos.Lib.Word

/-!
# Dates and timestamps (`rtc.c`, `time.h`)

A date is where a count of days lies in the lengths of the years and of the months, so that the kernel's count and the
user library's way back are inverse.
-/
namespace Xos.Io

open Word Outcome List Option

@[ext] structure RtcTime where
  second : Nat
  minute : Nat
  hour : Nat
  day : Nat
  month : Nat
  year : Nat
  deriving DecidableEq, Repr

/-- `is_leap`, and `is_leap_year` of the user library. -/
def isLeap (y : Nat) : Bool := (y % 4 = 0 && y % 100 ≠ 0) || y % 400 = 0

def daysInMonth : List Nat := [31, 28, 31, 30, 31, 30, 31, 31, 30, 31, 30, 31]

def yearDays (y : Nat) : Nat := if isLeap y then 366 else 365

def addMonth (leap : Bool) (m days : Nat) : Outcome Nat := do
  let length ← daysInMonth[m - 1]?.elim (throw (.outOfBounds (m - 1))) pure
  pure (days + length + if m = 2 ∧ leap then 1 else 0)

/-- `rtc_unix_timestamp`, of what `rtc_read` has read. -/
def rtcUnixTimestamp (t : RtcTime) : Outcome Nat := do
  let days := (List.range' 1970 (t.year - 1970)).foldl (fun days y => days + yearDays y) 0
  let days ← Outcome.forRange (addMonth (isLeap t.year)) (t.month - 1) 1 days
  let days := u64 (days + sext64 ((t.day : Int) - 1))
  pure (u64 (days * 86400 + t.hour * 3600 + t.minute * 60 + t.second))

structure Datetime where
  year : Nat
  month : Nat
  day : Nat
  hour : Nat
  min : Nat
  sec : Nat
  deriving DecidableEq, Repr

theorem yearDays_pos (y : Nat) : 0 < yearDays y := by
  unfold yearDays
  split <;> decide

def takeYears (ts y : Nat) : Nat × Nat :=
  if ts < yearDays y then (y, ts) else takeYears (ts - yearDays y) (u32 (y + 1))
termination_by ts
decreasing_by
  have := yearDays_pos y
  omega

/-- The loop over the months, from the month `m` with these lengths on. -/
def takeMonths : List Nat → Nat → Nat → Nat × Nat
  | [], m, ts => (m, ts)
  | length :: rest, m, ts => if ts < length then (m, ts) else takeMonths rest (m + 1) (ts - length)

/-- `mdays`. -/
def monthDays (leap : Bool) : List Nat := if leap then daysInMonth.set 1 29 else daysInMonth

def toDatetime (ts : Nat) : Datetime :=
  let years := takeYears (ts / 60 / 60 / 24) 1970
  let months := takeMonths (monthDays (isLeap years.1)) 1 years.2
  ⟨years.1, months.1, u32 (months.2 + 1), ts / 60 / 60 % 24, ts / 60 % 60, ts % 60⟩

def Datetime.rtcTime (dt : Datetime) : RtcTime := ⟨dt.sec, dt.min, dt.hour, dt.day, dt.month, dt.year⟩

def daysOfYears (n : Nat) : Nat := ((List.range' 1970 n).map yearDays).sum

theorem exists_sum_take (lengths : List Nat) (d : Nat) (inside : d < lengths.sum) :
    ∃ j length r, lengths[j]? = some length ∧ r < length ∧ d = (lengths.take j).sum + r := by
  induction lengths generalizing d with
  | nil => simp at inside
  | cons first rest ih =>
    by_cases here : d < first
    · exact ⟨0, first, d, rfl, here, by simp⟩
    · rw [sum_cons] at inside
      obtain ⟨j, length, r, found, short, split⟩ := ih (d - first) (by omega)
      refine ⟨j + 1, length, r, found, short, ?_⟩
      rw [take_succ_cons, sum_cons]
      omega

theorem takeMonths_sum_take {lengths : List Nat} {j m length r : Nat} (found : lengths[j]? = some length) (short : r < length) :
    takeMonths lengths m ((lengths.take j).sum + r) = (m + j, r) := by
  induction lengths generalizing j m with
  | nil => simp at found
  | cons first rest ih =>
    cases j with
    | zero =>
      obtain rfl := some.inj found
      simp [takeMonths, short]
    | succ j =>
      rw [take_succ_cons, sum_cons, takeMonths, if_neg (by omega), show first + (rest.take j).sum + r - first =
        (rest.take j).sum + r by omega, ih found, Nat.add_right_comm, Nat.add_assoc]

theorem takeYears_sum {n y r : Nat} (short : r < yearDays (y + n)) (early : y + n < 2 ^ 32) :
    takeYears (((List.range' y n).map yearDays).sum + r) y = (y + n, r) := by
  induction n generalizing y with
  | zero =>
    rw [takeYears]
    simp_all
  | succ n ih =>
    rw [range'_succ, map_cons, sum_cons, takeYears, if_neg (by omega), u32_of_lt (by omega), Nat.add_assoc,
      Nat.add_sub_cancel_left, ih (by rwa [Nat.add_right_comm, Nat.add_assoc]) (by omega), Nat.add_right_comm, Nat.add_assoc]

theorem addMonths_eq (leap : Bool) {j : Nat} (inside : j < 12) (days : Nat) :
    Outcome.forRange (addMonth leap) j 1 days = .ok (days + ((monthDays leap).take j).sum) := by
  interval_cases j <;> cases leap <;> simp [Outcome.forRange, addMonth, monthDays, daysInMonth]

theorem yearDays_le (y : Nat) : yearDays y ≤ 366 := by
  unfold yearDays
  split <;> decide

theorem sum_yearDays_le (y n : Nat) : ((List.range' y n).map yearDays).sum ≤ n * 366 := by
  induction n generalizing y with
  | zero => rfl
  | succ n ih =>
    rw [range'_succ, map_cons, sum_cons]
    have first := yearDays_le y
    have rest := ih (y + 1)
    omega

structure RtcTime.Valid (t : RtcTime) : Prop where
  second : t.second < 60
  minute : t.minute < 60
  hour : t.hour < 24
  year : 1970 ≤ t.year
  month : 1 ≤ t.month
  day : 1 ≤ t.day
  length : ∃ length, (monthDays (isLeap t.year))[t.month - 1]? = some length ∧ t.day ≤ length

def RtcTime.days (t : RtcTime) : Nat :=
  daysOfYears (t.year - 1970) + (((monthDays (isLeap t.year)).take (t.month - 1)).sum + (t.day - 1))

variable {t : RtcTime}

theorem length_monthDays (leap : Bool) : (monthDays leap).length = 12 := by
  cases leap <;> rfl

theorem sum_monthDays (y : Nat) : (monthDays (isLeap y)).sum = yearDays y := by
  unfold yearDays
  cases isLeap y <;> rfl

theorem RtcTime.Valid.month_le (valid : t.Valid) : t.month - 1 < 12 := by
  obtain ⟨length, found, -⟩ := valid.length
  obtain ⟨inside, -⟩ := List.getElem?_eq_some_iff.mp found
  rwa [length_monthDays] at inside

theorem RtcTime.Valid.day_lt (valid : t.Valid) :
    ((monthDays (isLeap t.year)).take (t.month - 1)).sum + (t.day - 1) < yearDays t.year := by
  obtain ⟨length, found, bound⟩ := valid.length
  have pos := valid.day
  have upto := sum_take_add_sum_drop (monthDays (isLeap t.year)) (t.month - 1 + 1)
  rw [take_add_one, found, sum_append, sum_monthDays] at upto
  simp only [toList_some, sum_singleton] at upto
  omega

theorem RtcTime.Valid.timestamp (valid : t.Valid) (range : t.year ≤ 25755) :
    rtcUnixTimestamp t = .ok (t.days * 86400 + t.hour * 3600 + t.minute * 60 + t.second) := by
  have years : (List.range' 1970 (t.year - 1970)).foldl (fun days y => days + yearDays y) 0 = daysOfYears (t.year - 1970) := by
    rw [daysOfYears, sum_eq_foldl, foldl_map]
  have bound : t.days ≤ (t.year - 1970) * 366 + 366 :=
    Nat.add_le_add (sum_yearDays_le 1970 _) (valid.day_lt.le.trans (yearDays_le _))
  have day : sext64 ((t.day : Int) - 1) = t.day - 1 := by
    rw [← Nat.cast_one, ← Nat.cast_sub valid.day]
    exact sext64_natCast (by have := valid.day_lt; have := yearDays_le t.year; omega)
  have := valid.second
  have := valid.minute
  have := valid.hour
  simp only [rtcUnixTimestamp, years, addMonths_eq _ valid.month_le, ok_bind, pure_eq_ok, day, Nat.add_assoc (daysOfYears _)]
  rw [show daysOfYears (t.year - 1970) + (((monthDays (isLeap t.year)).take (t.month - 1)).sum + (t.day - 1)) = t.days from rfl,
    u64_of_lt (n := t.days) (by omega), u64_of_lt (by omega)]

theorem RtcTime.Valid.toDatetime (valid : t.Valid) (range : t.year ≤ 25755) :
    (toDatetime (t.days * 86400 + t.hour * 3600 + t.minute * 60 + t.second)).rtcTime = t := by
  have := valid.second
  have := valid.minute
  have := valid.hour
  have := valid.year
  have := valid.month
  have := valid.day
  have inYear := valid.day_lt
  have most := yearDays_le t.year
  obtain ⟨length, found, bound⟩ := valid.length
  have year : 1970 + (t.year - 1970) = t.year := by omega
  have years : takeYears t.days 1970 = (t.year, ((monthDays (isLeap t.year)).take (t.month - 1)).sum + (t.day - 1)) := by
    rw [RtcTime.days, daysOfYears, takeYears_sum (by rwa [year]) (by omega), year]
  have months := takeMonths_sum_take (m := 1) found (show t.day - 1 < length by omega)
  have split : (t.days * 86400 + t.hour * 3600 + t.minute * 60 + t.second) / 60 / 60 / 24 = t.days := by omega
  rw [Io.toDatetime, split, years]
  rw [months, Datetime.rtcTime, u32_of_lt (by omega)]
  ext <;> dsimp only <;> omega

theorem exists_date {d : Nat} (range : d < daysOfYears (25756 - 1970)) (s mi h : Nat)
    (second : s < 60) (minute : mi < 60) (hour : h < 24) :
    ∃ t : RtcTime, t.Valid ∧ t.year ≤ 25755 ∧ t.days = d ∧ t.second = s ∧ t.minute = mi ∧ t.hour = h := by
  obtain ⟨n, year, r, found, short, rfl⟩ := exists_sum_take _ d range
  rw [getElem?_map, map_eq_some_iff] at found
  obtain ⟨y, place, rfl⟩ := found
  obtain ⟨inside, rfl⟩ := List.getElem?_eq_some_iff.mp place
  rw [length_range'] at inside
  rw [getElem_range', Nat.one_mul] at short
  obtain ⟨j, length, q, month, day, rfl⟩ := exists_sum_take (monthDays (isLeap (1970 + n))) r (by rwa [sum_monthDays])
  refine ⟨⟨s, mi, h, q + 1, j + 1, 1970 + n⟩, ⟨second, minute, hour, Nat.le_add_right .., Nat.le_add_left .., Nat.le_add_left ..,
    length, month, day⟩, ?_, ?_, rfl, rfl, rfl⟩
  · simp only
    omega
  · have front : (List.range' 1970 (25756 - 1970)).take n = List.range' 1970 n := by
      rw [show 25756 - 1970 = n + (25756 - 1970 - n) by omega, ← range'_append_1, take_left' length_range']
    simp only [RtcTime.days, Nat.add_sub_cancel, Nat.add_sub_cancel_left, daysOfYears, ← map_take, front]

/-- The calendars of the kernel and of the user library are inverse to each other. -/
theorem calendars_inverse :
    (∀ t : RtcTime, t.Valid → t.year ≤ 25755 → ∃ ts, rtcUnixTimestamp t = .ok ts ∧ (toDatetime ts).rtcTime = t) ∧
      ∀ ts, ts < daysOfYears (25756 - 1970) * 86400 → rtcUnixTimestamp (toDatetime ts).rtcTime = .ok ts := by
  refine ⟨fun t valid range => ⟨_, valid.timestamp range, valid.toDatetime range⟩, fun ts range => ?_⟩
  obtain ⟨t, valid, early, days, second, minute, hour⟩ := exists_date (d := ts / 86400) (by omega) (ts % 60) (ts / 60 % 60)
    (ts / 3600 % 24) (by omega) (by omega) (by omega)
  have same : t.days * 86400 + t.hour * 3600 + t.minute * 60 + t.second = ts := by omega
  rw [← same, valid.toDatetime early, valid.timestamp early]

theorem leap_day_returns : ∃ ts, rtcUnixTimestamp ⟨59, 59, 23, 29, 2, 2024⟩ = .ok ts ∧
    (toDatetime ts).rtcTime = ⟨59, 59, 23, 29, 2, 2024⟩ :=
  calendars_inverse.1 _ ⟨by decide, by decide, by decide, by decide, by decide, by decide, 29, rfl, by decide⟩ (by decide)

end Xos.Io
