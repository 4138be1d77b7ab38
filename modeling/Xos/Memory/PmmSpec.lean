import Xos.Lib.Window
import Xos.Memory.Bitmap

/-!
# What each allocator operation does

One lemma for each operation of `pmm.c`, stated on bits. Later modules do not unfold the scans again.
-/
namespace Xos.Memory

open Word Lib Outcome Pmm

/-- What `pmm_init` establishes and every operation keeps: the hint is inside the managed
range, the bitmap covers that range, and page numbers are those of 64-bit addresses. -/
structure Pmm.Valid (s : Pmm) : Prop where
  hint : s.lastIndex ≤ s.pageCount
  covered : s.pageCount ≤ 8 * s.bitmapSize
  addressable : s.pageCount ≤ 2 ^ 52

/-- The state after `count` pages from `first` on have been handed out. -/
def Pmm.allocated (s : Pmm) (first count : Nat) : Pmm :=
  { s.markRange first count with
    usedMemory := u64 (s.usedMemory + u32 (count * 4096))
    lastIndex := first + count }

/-- The state after `page` has been given back. -/
def Pmm.released (s : Pmm) (page : Nat) : Pmm :=
  { s.unmark page with
    usedMemory := sub64 s.usedMemory 4096
    lastIndex := if page < s.lastIndex then page else s.lastIndex }

def outOfMemory : Stop := .panic "Out of memory!"

section Fields

variable (s : Pmm) (first count page : Nat)

@[simp] theorem Pmm.allocated_bitmap : (s.allocated first count).bitmap = (s.markRange first count).bitmap := by
  rw [allocated]

@[simp] theorem Pmm.allocated_pageCount : (s.allocated first count).pageCount = s.pageCount := by
  rw [allocated, markRange_pageCount]

@[simp] theorem Pmm.allocated_bitmapSize : (s.allocated first count).bitmapSize = s.bitmapSize := by
  rw [allocated, markRange_bitmapSize]

@[simp] theorem Pmm.allocated_lastIndex : (s.allocated first count).lastIndex = first + count := by
  rw [allocated]

@[simp] theorem Pmm.allocated_usedMemory : (s.allocated first count).usedMemory = u64 (s.usedMemory + u32 (count * 4096)) := by
  rw [allocated]

@[simp] theorem Pmm.released_bitmap : (s.released page).bitmap = (s.unmark page).bitmap := by
  rw [released]

@[simp] theorem Pmm.released_pageCount : (s.released page).pageCount = s.pageCount := by
  rw [released, unmark_pageCount]

@[simp] theorem Pmm.released_bitmapSize : (s.released page).bitmapSize = s.bitmapSize := by
  rw [released, unmark_bitmapSize]

@[simp] theorem Pmm.released_usedMemory : (s.released page).usedMemory = sub64 s.usedMemory 4096 := by
  rw [released]

@[simp] theorem Pmm.released_lastIndex : (s.released page).lastIndex = if page < s.lastIndex then page else s.lastIndex := by
  rw [released]

@[simp] theorem Pmm.allocated_bit (q : Nat) : (s.allocated first count).bit q =
    (decide (first ≤ q ∧ q < first + count) || s.bit q) := by
  rw [← bit_markRange, bit, bit, allocated_bitmap]

@[simp] theorem Pmm.released_bit (q : Nat) : (s.released page).bit q = (!decide (q = page) && s.bit q) := by
  rw [← bit_unmark, bit, bit, released_bitmap]

end Fields

variable {s : Pmm} {count : Nat}

theorem Pmm.Valid.allocated (valid : s.Valid) {first : Nat} (fits : first + count ≤ s.pageCount) :
    (s.allocated first count).Valid := by
  refine ⟨?_, ?_, ?_⟩
  · simpa using fits
  · simpa using valid.covered
  · simpa using valid.addressable

theorem Pmm.Valid.released (valid : s.Valid) (page : Nat) : (s.released page).Valid := by
  have hint := valid.hint
  refine ⟨?_, ?_, ?_⟩
  · rw [released_lastIndex, released_pageCount]
    split <;> omega
  · simpa using valid.covered
  · simpa using valid.addressable

theorem pageToAddr_eq {page : Nat} (bound : page < 2 ^ 52) : pageToAddr page = page * 4096 := by
  unfold pageToAddr
  rw [Nat.shiftLeft_eq, u64_of_lt (by omega)]

theorem addrToPage_eq (addr : Nat) : addrToPage addr = addr / 4096 := by
  unfold addrToPage
  rw [Nat.shiftRight_eq_div_pow]

theorem scanPage_spec (s : Pmm) (n i : Nat) (inside : i + n ≤ 8 * s.bitmapSize) :
    (∃ j, i ≤ j ∧ j < i + n ∧ s.bit j = false ∧ (∀ p, i ≤ p → p < j → s.bit p = true) ∧
      scanPage s n i = .ok (some j)) ∨
    ((∀ p, i ≤ p → p < i + n → s.bit p = true) ∧ scanPage s n i = .ok none) := by
  induction n generalizing i with
  | zero => exact Or.inr ⟨fun p _ _ => by omega, rfl⟩
  | succ n ih =>
    rw [scanPage, bitmapTest_eq, if_pos (by omega), ok_bind]
    cases taken : s.bit i with
    | false => exact Or.inl ⟨i, by omega, by omega, taken, fun p _ _ => by omega, rfl⟩
    | true =>
      rw [if_pos rfl]
      -- bit `i` is set, so whatever holds from `i + 1` on holds from `i` on
      have cover : ∀ hi, (∀ p, i + 1 ≤ p → p < hi → s.bit p = true) →
          ∀ p, i ≤ p → p < hi → s.bit p = true := by
        intro hi rest p low high
        by_cases here : p = i
        · rw [here]
          exact taken
        · exact rest p (by omega) high
      rcases ih (i + 1) (by omega) with ⟨j, low, high, clear, before, found⟩ | ⟨all, missed⟩
      · exact Or.inl ⟨j, by omega, by omega, clear, cover j before, found⟩
      · exact Or.inr ⟨cover _ (fun p low high => all p low (by omega)), missed⟩

theorem takePage_eq (valid : s.Valid) {i : Nat} (bound : i < s.pageCount) : takePage s i = .ok (s.allocated i 1, i * 4096) := by
  have covered := valid.covered
  have addressable := valid.addressable
  rw [takePage, bitmapSet_eq, if_pos (by omega), ok_bind, pageToAddr_eq (by omega),
    u64_of_lt (show i + 1 < 2 ^ 64 by omega), allocated, u32_of_lt (by omega), Nat.one_mul,
    mark_usedMemory]
  rfl

/-- `pmm_alloc_page` takes the first clear page from the hint on, else the first one below the
hint, and panics exactly when every page is in use. -/
theorem pmmAllocPage_spec (valid : s.Valid) : (∃ i, i < s.pageCount ∧ s.bit i = false ∧
      (∀ p, s.lastIndex ≤ p → p < i → s.bit p = true) ∧
      (i < s.lastIndex → ∀ p, s.lastIndex ≤ p → p < s.pageCount → s.bit p = true) ∧
      pmmAllocPage s = .ok (s.allocated i 1, i * 4096)) ∨
    ((∀ p, p < s.pageCount → s.bit p = true) ∧ pmmAllocPage s = .error outOfMemory) := by
  have hint := valid.hint
  have covered := valid.covered
  unfold pmmAllocPage
  rcases scanPage_spec s (s.pageCount - s.lastIndex) s.lastIndex (by omega) with
    ⟨i, low, high, clear, before, found⟩ | ⟨upper, missed⟩
  · left
    refine ⟨i, by omega, clear, before, by omega, ?_⟩
    rw [found, ok_bind]
    exact takePage_eq valid (by omega)
  · rw [missed, ok_bind]
    have above : ∀ p, s.lastIndex ≤ p → p < s.pageCount → s.bit p = true :=
      fun p low high => upper p low (by omega)
    rcases scanPage_spec s s.lastIndex 0 (by omega) with
      ⟨i, -, high, clear, -, found⟩ | ⟨lower, missed'⟩
    · left
      refine ⟨i, by omega, clear, by omega, fun _ => above, ?_⟩
      simp only [found, ok_bind]
      exact takePage_eq valid (by omega)
    · right
      refine ⟨fun p bound => ?_, ?_⟩
      · by_cases low : p < s.lastIndex
        · exact lower p (by omega) (by omega)
        · exact above p (by omega) bound
      · simp only [missed', ok_bind]
        rfl

theorem pmmAllocPage_ok {s' : Pmm} {addr : Nat} (valid : s.Valid) (ret : pmmAllocPage s = .ok (s', addr)) :
    ∃ i, i < s.pageCount ∧ s.bit i = false ∧ s' = s.allocated i 1 ∧ addr = i * 4096 := by
  rcases pmmAllocPage_spec valid with ⟨i, managed, clear, -, -, taken⟩ | ⟨-, stopped⟩
  · obtain ⟨rfl, rfl⟩ := Prod.mk.inj (Except.ok.inj (taken.symm.trans ret))
    exact ⟨i, managed, clear, rfl, rfl⟩
  · cases stopped.symm.trans ret

/-- `pmm_free_page` accepts exactly the aligned addresses of managed pages that are in use. -/
theorem pmmFreePage_eq (valid : s.Valid) (addr : Nat) : pmmFreePage s addr =
    if addr % 4096 ≠ 0 then .error (.panic "PMM free unaligned address")
    else if s.pageCount ≤ addr / 4096 then .error (.panic "PMM free out of range") else if s.bit (addr / 4096) = false then
      .error (.panic "PMM double free or freeing free page")
    else .ok (s.released (addr / 4096)) := by
  have covered := valid.covered
  have low : addr &&& 0xFFF = addr % 4096 := and_low addr 12
  unfold pmmFreePage
  simp only [addrToPage_eq, low]
  by_cases aligned : addr % 4096 = 0
  · by_cases range : s.pageCount ≤ addr / 4096
    · simp [aligned, range]
    · have inside : addr / 4096 / 8 < s.bitmapSize := by omega
      rw [bitmapTest_eq, if_pos inside]
      cases used : s.bit (addr / 4096) with
      | false => simp [aligned, range]
      | true =>
        simp only [aligned, range, bitmapClear_eq, if_pos inside, ne_eq, not_true_eq_false,
          if_false, pure_eq_ok, ok_bind, Bool.not_true, Bool.false_eq_true,
          Bool.true_eq_false, unmark_lastIndex]
        by_cases before : addr / 4096 < s.lastIndex
        · simp only [before, if_true, released, unmark_usedMemory]
        · simp only [before, if_false, released, unmark_usedMemory]
  · simp [aligned]

theorem pmmFreePage_ok_iff {s' : Pmm} (valid : s.Valid) (addr : Nat) :
    pmmFreePage s addr = .ok s' ↔ addr % 4096 = 0 ∧ addr / 4096 < s.pageCount ∧
      s.bit (addr / 4096) = true ∧ s' = s.released (addr / 4096) := by
  rw [pmmFreePage_eq valid]
  split
  next unaligned => simp [unaligned]
  next aligned =>
    split
    next range => simp [show ¬addr / 4096 < s.pageCount by omega]
    next range =>
      split
      next clear => simp [clear]
      next used =>
        have inUse : s.bit (addr / 4096) = true := by simpa using used
        simp only [Except.ok.injEq, inUse, true_and, show addr % 4096 = 0 by omega,
          show addr / 4096 < s.pageCount by omega]
        exact eq_comm

/-- One pass of `pmm_alloc_pages` finds a window of `count` clear bits in its range, if there is
one. The loop invariant is that the counter is the length of the longest window ending here and
that no complete window has been passed. -/
theorem scanPages_spec (s : Pmm) (count n lo i current firstPage : Nat) (pos : 1 ≤ count)
    (bound : count < 2 ^ 32) (inside : i + n ≤ 8 * s.bitmapSize) (below : current < count)
    (suffix : Suffix s.isFree lo i current) (start : current ≠ 0 → firstPage = i - current)
      (none_yet : ¬HasWindow s.isFree lo i count) :
    (∃ f, lo ≤ f ∧ f + count ≤ i + n ∧ Window s.isFree f count ∧
      scanPages s count n i current firstPage = .ok (some f)) ∨
    (¬HasWindow s.isFree lo (i + n) count ∧ scanPages s count n i current firstPage = .ok none) := by
  have fits := suffix.fits
  induction n generalizing i current firstPage with
  | zero => exact Or.inr ⟨none_yet, rfl⟩
  | succ n ih =>
    rw [scanPages, bitmapTest_eq, if_pos (by omega), ok_bind]
    have shift : i + (n + 1) = i + 1 + n := by omega
    cases taken : s.bit i with
    | true =>
      have busy : Suffix s.isFree lo (i + 1) 0 :=
        Suffix.busy (by omega) (by simp [isFree, taken])
      have still : ¬HasWindow s.isFree lo (i + 1) count := by
        rw [busy.hasWindow_iff]
        rintro (earlier | short)
        · exact none_yet earlier
        · omega
      rw [if_pos rfl, shift]
      exact ih (i + 1) 0 firstPage (by omega) (by omega) busy (fun h => absurd rfl h) still busy.fits
    | false =>
      have longer : Suffix s.isFree lo (i + 1) (current + 1) :=
        suffix.extend (by simp [isFree, taken])
      have counter : u32 (current + 1) = current + 1 := u32_of_lt (by omega)
      have first : (if current = 0 then i else firstPage) = i + 1 - (current + 1) := by
        split
        · omega
        next nonzero => rw [start nonzero]; omega
      simp only [Bool.false_eq_true, if_false, counter, first]
      by_cases complete : current + 1 = count
      · rw [if_pos complete]
        exact Or.inl ⟨_, by omega, by omega, complete ▸ longer.window, rfl⟩
      · have still : ¬HasWindow s.isFree lo (i + 1) count := by
          rw [longer.hasWindow_iff]
          rintro (earlier | short)
          · exact none_yet earlier
          · omega
        rw [if_neg complete, shift]
        exact ih (i + 1) (current + 1) _ (by omega) (by omega) longer (fun _ => rfl) still longer.fits

theorem takePages_eq (valid : s.Valid) {first : Nat} (bound : first < s.pageCount) (fits : first + count ≤ s.pageCount) :
    takePages s first count = .ok (s.allocated first count, first * 4096) := by
  have covered := valid.covered
  have addressable := valid.addressable
  rw [takePages, bitmapSetRange_eq _ _ _ (by omega), ok_bind, pageToAddr_eq (by omega),
    u64_of_lt (show first + count < 2 ^ 64 by omega), markRange_usedMemory]
  rfl

theorem scanPages_pass (s : Pmm) (count n lo : Nat) (pos : 1 ≤ count) (bound : count < 2 ^ 32) (inside : lo + n ≤ 8 * s.bitmapSize) :
    (∃ f, lo ≤ f ∧ f + count ≤ lo + n ∧ Window s.isFree f count ∧
      scanPages s count n lo 0 0 = .ok (some f)) ∨
    (¬HasWindow s.isFree lo (lo + n) count ∧ scanPages s count n lo 0 0 = .ok none) :=
  scanPages_spec s count n lo lo 0 0 pos bound inside (by omega) (Suffix.start lo)
    (fun h => absurd rfl h) (not_hasWindow_empty (by omega))

/-- `pmm_alloc_pages` takes a window of clear pages on one side of the hint, and panics exactly
when neither side has one. -/
theorem pmmAllocPages_spec (valid : s.Valid) (pos : 1 ≤ count) (bound : count < 2 ^ 32) :
    (∃ f, f + count ≤ s.pageCount ∧ (s.lastIndex ≤ f ∨ f + count ≤ s.lastIndex) ∧
      Window s.isFree f count ∧ pmmAllocPages s count = .ok (s.allocated f count, f * 4096)) ∨
    (¬HasWindow s.isFree s.lastIndex s.pageCount count ∧
      ¬HasWindow s.isFree 0 s.lastIndex count ∧ pmmAllocPages s count = .error outOfMemory) := by
  have hint := valid.hint
  have covered := valid.covered
  unfold pmmAllocPages
  simp only [u32_of_lt bound]
  rcases scanPages_pass s count (s.pageCount - s.lastIndex) s.lastIndex pos bound (by omega) with
    ⟨f, low, high, window, found⟩ | ⟨upper, missed⟩
  · left
    refine ⟨f, by omega, Or.inl low, window, ?_⟩
    rw [found, ok_bind]
    exact takePages_eq valid (by omega) (by omega)
  · rw [missed, ok_bind]
    rcases scanPages_pass s count s.lastIndex 0 pos bound (by omega) with
      ⟨f, -, high, window, found⟩ | ⟨lower, missed'⟩
    · left
      refine ⟨f, by omega, Or.inr (by omega), window, ?_⟩
      simp only [found, ok_bind]
      exact takePages_eq valid (by omega) (by omega)
    · right
      refine ⟨?_, ?_, ?_⟩
      · rwa [show s.lastIndex + (s.pageCount - s.lastIndex) = s.pageCount by omega] at upper
      · rwa [Nat.zero_add] at lower
      · simp only [missed', ok_bind]
        rfl

theorem scanPages_lt {n i current firstPage : Nat} (inside : i + n ≤ 8 * s.bitmapSize) (start : current ≠ 0 → firstPage < i) :
    Outcome.Meets (scanPages s count n i current firstPage) (fun found => ∀ f, found = some f → f < i + n)
      (· = outOfMemory) := by
  induction n generalizing i current firstPage with
  | zero => exact fun f found => by cases found
  | succ n ih =>
    have shift : i + 1 + n = i + (n + 1) := by omega
    rw [scanPages, bitmapTest_eq, if_pos (by omega), ok_bind, ← shift]
    cases taken : s.bit i with
    | true => exact ih (by omega) (fun h => absurd rfl h)
    | false =>
      have first : (if current = 0 then i else firstPage) < i + 1 := by
        split
        · omega
        next nonzero => exact (start nonzero).trans (Nat.lt_succ_self i)
      simp only [Bool.false_eq_true, if_false]
      split
      · rintro f ⟨⟩
        omega
      · exact ih (by omega) (fun _ => first)

theorem pmmAllocPages_zero (valid : s.Valid) (zero : u32 count = 0) : Outcome.Meets (pmmAllocPages s count)
      (fun r => ∃ f, f + 0 ≤ s.pageCount ∧ r.1 = s.allocated f 0 ∧ r.2 = f * 4096) (· = outOfMemory) := by
  have hint := valid.hint
  have covered := valid.covered
  -- both passes end in the same way
  have taken {f : Nat} (bound : f < s.pageCount) : Outcome.Meets (takePages s f 0)
      (fun r => ∃ f, f + 0 ≤ s.pageCount ∧ r.1 = s.allocated f 0 ∧ r.2 = f * 4096) (· = outOfMemory) := by
    rw [takePages_eq valid bound (by omega)]
    exact ⟨f, by omega, rfl, rfl⟩
  unfold pmmAllocPages
  simp only [zero]
  refine (scanPages_lt (by omega) (fun h => absurd rfl h)).bind fun found first => ?_
  cases found with
  | some f =>
    have bound := first f rfl
    exact taken (by omega)
  | none =>
    refine (scanPages_lt (by omega) (fun h => absurd rfl h)).bind fun found second => ?_
    cases found with
    | some f =>
      have bound := second f rfl
      exact taken (by omega)
    | none => rfl

theorem pmmAllocPages_u32 (s : Pmm) (count : Nat) : pmmAllocPages s (u32 count) = pmmAllocPages s count := by
  unfold pmmAllocPages
  rw [u32_of_lt (u32_lt count)]

theorem pmmAllocPages_meets (valid : s.Valid) (count : Nat) : Outcome.Meets (pmmAllocPages s count)
      (fun r => ∃ f, f + u32 count ≤ s.pageCount ∧ Window s.isFree f (u32 count) ∧
        r.1 = s.allocated f (u32 count) ∧ r.2 = f * 4096) (· = outOfMemory) := by
  rcases Nat.eq_zero_or_pos (u32 count) with zero | pos
  · rw [zero]
    refine (pmmAllocPages_zero valid zero).weaken ?_ fun _ stopped => stopped
    rintro r ⟨f, fits, res⟩
    exact ⟨f, fits, fun p _ _ => by omega, res⟩
  · rw [← pmmAllocPages_u32]
    rcases pmmAllocPages_spec valid pos (u32_lt count) with
      ⟨f, fits, -, window, res⟩ | ⟨-, -, stopped⟩
    · rw [res]
      exact ⟨f, fits, window, rfl, rfl⟩
    · rw [stopped]
      exact rfl

theorem pmmAllocPages_ok {s' : Pmm} (valid : s.Valid) {addr : Nat} (ret : pmmAllocPages s count = .ok (s', addr)) :
    ∃ f, f + u32 count ≤ s.pageCount ∧ Window s.isFree f (u32 count) ∧
      s' = s.allocated f (u32 count) ∧ addr = f * 4096 := by
  have meets := pmmAllocPages_meets valid count
  rw [ret] at meets
  exact meets

end Xos.Memory
