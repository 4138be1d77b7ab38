import Xos.Memory.PmmCount
import Xos.Memory.PmmInit

/-!
# What `pmm_init` leaves behind

Each loop of `pmm_init` sets or clears the bits of a set of pages. `Reserves` and `Unreserves`
say so and compose, and the state after `pmm_init` follows by chaining them.
-/
namespace Xos.Memory

open Word Lib Outcome

/-- The bits past the managed pages, which fill up the last byte, are set. -/
def Pmm.Padded (s : Pmm) : Prop := ∀ p, s.pageCount ≤ p → p / 8 < s.bitmapSize → s.bit p = true

/-- From `s` to `s'` exactly the bits of `pages` have been set. -/
structure Reserves (s s' : Pmm) (pages : Set Nat) : Prop where
  bit : ∀ q, s'.bit q = true ↔ q ∈ pages ∨ s.bit q = true
  pageCount : s'.pageCount = s.pageCount
  bitmapSize : s'.bitmapSize = s.bitmapSize
  bitmapAddr : s'.bitmapAddr = s.bitmapAddr
  lastIndex : s'.lastIndex = s.lastIndex
  maxAddress : s'.maxAddress = s.maxAddress
  counted : s.Padded → s.Counted → s'.Counted

/-- From `s` to `s'` exactly the bits of `pages`, all of them managed, have been cleared. -/
structure Unreserves (s s' : Pmm) (pages : Set Nat) : Prop where
  bit : ∀ q, s'.bit q = true ↔ q ∉ pages ∧ s.bit q = true
  pageCount : s'.pageCount = s.pageCount
  bitmapSize : s'.bitmapSize = s.bitmapSize
  bitmapAddr : s'.bitmapAddr = s.bitmapAddr
  lastIndex : s'.lastIndex = s.lastIndex
  counted : s.Counted → s'.Counted

variable {s : Pmm} {start : Nat} {desc : EfiMemoryDescriptor} {map : List EfiMemoryDescriptor} {kernel : KernelImage}

theorem Reserves.padded {s' : Pmm} {pages : Set Nat} (step : Reserves s s' pages) (padded : s.Padded) : s'.Padded := by
  intro p past inside
  rw [step.pageCount] at past
  rw [step.bitmapSize] at inside
  exact (step.bit p).mpr (Or.inr (padded p past inside))

theorem Reserves.refl (s : Pmm) : Reserves s s ∅ :=
  ⟨fun q => by simp, rfl, rfl, rfl, rfl, rfl, fun _ counted => counted⟩

theorem Reserves.trans {t u : Pmm} {first second : Set Nat} (a : Reserves s t first)
    (b : Reserves t u second) : Reserves s u (first ∪ second) where
  bit q := by rw [b.bit, a.bit, Set.mem_union]; tauto
  pageCount := b.pageCount.trans a.pageCount
  bitmapSize := b.bitmapSize.trans a.bitmapSize
  bitmapAddr := b.bitmapAddr.trans a.bitmapAddr
  lastIndex := b.lastIndex.trans a.lastIndex
  maxAddress := b.maxAddress.trans a.maxAddress
  counted padded counted := b.counted (a.padded padded) (a.counted padded counted)

theorem Unreserves.refl (s : Pmm) : Unreserves s s ∅ :=
  ⟨fun q => by simp, rfl, rfl, rfl, rfl, fun counted => counted⟩

theorem Unreserves.trans {t u : Pmm} {first second : Set Nat} (a : Unreserves s t first)
    (b : Unreserves t u second) : Unreserves s u (first ∪ second) where
  bit q := by rw [b.bit, a.bit, Set.mem_union]; tauto
  pageCount := b.pageCount.trans a.pageCount
  bitmapSize := b.bitmapSize.trans a.bitmapSize
  bitmapAddr := b.bitmapAddr.trans a.bitmapAddr
  lastIndex := b.lastIndex.trans a.lastIndex
  counted counted := b.counted (a.counted counted)

def Pmm.withUsed (s : Pmm) (used : Nat) : Pmm := { s with usedMemory := used }

@[simp] theorem Pmm.withUsed_bit (s : Pmm) (used q : Nat) : (s.withUsed used).bit q = s.bit q := rfl

@[simp] theorem Pmm.withUsed_usedMemory (s : Pmm) (used : Nat) : (s.withUsed used).usedMemory = used := rfl

variable {page : Nat}

theorem reserves_mark (inside : page / 8 < s.bitmapSize) (clear : s.bit page = false) :
    Reserves s ((s.mark page).withUsed (u64 (s.usedMemory + 4096))) {page} := by
  refine ⟨fun q => by simp, rfl, rfl, rfl, rfl, rfl, fun padded counted => ?_⟩
  -- padding is set, so a page that was clear is a managed one and is newly counted
  have managed : page < s.pageCount := by
    by_contra past
    rw [padded page (by omega) inside] at clear
    cases clear
  have grown : ((s.mark page).withUsed (u64 (s.usedMemory + 4096))).usedPages =
      s.usedPages + ({page} : Finset Nat).card :=
    usedPages_of_set rfl (by simpa using managed) (by simpa using clear) (fun p _ => by simp)
  rw [Pmm.Counted, grown, Pmm.withUsed_usedMemory, counted, u64_add, Finset.card_singleton,
    Nat.mul_add, Nat.mul_one]

theorem unreserves_unmark (managed : page < s.pageCount) (used : s.bit page = true) :
    Unreserves s ((s.unmark page).withUsed (sub64 s.usedMemory 4096)) {page} := by
  refine ⟨fun q => by simp, rfl, rfl, rfl, rfl, fun counted => ?_⟩
  have shrunk : ((s.unmark page).withUsed (sub64 s.usedMemory 4096)).usedPages + 1 = s.usedPages :=
    usedPages_of_clear rfl managed used (fun p _ => by simp)
  have total : sub64 s.usedMemory 4096 = u64 (4096 * (s.usedPages - 1)) := by
    rw [counted, sub64_u64 (by omega) (by omega), Nat.mul_sub, Nat.mul_one]
  rw [Pmm.Counted, Pmm.withUsed_usedMemory, show Pmm.usedPages _ = s.usedPages - 1 by omega]
  exact total

theorem pmmReservePage_ok (s : Pmm) (addr : Nat) (inside : addr / 4096 / 8 < s.bitmapSize) :
    ∃ s', pmmReservePage s addr = .ok s' ∧ Reserves s s' {addr / 4096} := by
  unfold pmmReservePage
  simp only [addrToPage_eq, bitmapTest_eq, bitmapSet_eq, if_pos inside, ok_bind]
  cases used : s.bit (addr / 4096) with
  | true =>
    refine ⟨s, rfl, fun q => ?_, rfl, rfl, rfl, rfl, rfl, fun _ counted => counted⟩
    by_cases here : q = addr / 4096
    · simp [here, used]
    · simp [here]
  | false => exact ⟨_, rfl, reserves_mark inside used⟩

variable {addr : Nat}

theorem pmmReservePage_outside (outside : ¬addr / 4096 / 8 < s.bitmapSize) :
    pmmReservePage s addr = .error (.outOfBounds (addr / 4096 / 8)) := by
  unfold pmmReservePage
  simp only [addrToPage_eq, bitmapTest_eq, if_neg outside, error_bind]

theorem pmmUnreservePage_ok (s : Pmm) (addr : Nat) (managed : addr / 4096 < s.pageCount) (inside : addr / 4096 / 8 < s.bitmapSize) :
    ∃ s', pmmUnreservePage s addr = .ok s' ∧ Unreserves s s' {addr / 4096} := by
  unfold pmmUnreservePage
  simp only [addrToPage_eq, bitmapTest_eq, bitmapClear_eq, if_pos inside, ok_bind]
  cases used : s.bit (addr / 4096) with
  | false =>
    refine ⟨s, rfl, fun q => ?_, rfl, rfl, rfl, rfl, fun counted => counted⟩
    by_cases here : q = addr / 4096
    · simp [here, used]
    · simp [here]
  | true => exact ⟨_, rfl, unreserves_unmark managed used⟩

/-- The `k`-th page a loop over a region visits. -/
def visitedPage (start k : Nat) : Nat := u64 (start + u64 (k * 4096)) / 4096

theorem visitedPage_eq {k : Nat} (bound : start + k * 4096 < 2 ^ 64) : visitedPage start k = start / 4096 + k := by
  unfold visitedPage
  rw [u64_of_lt (show k * 4096 < 2 ^ 64 by omega), u64_of_lt bound]
  omega

/-- The set of pages a loop over a region visits from its `i`-th iteration on. -/
def visited (start i n : Nat) : Set Nat := {p | ∃ k, i ≤ k ∧ k < i + n ∧ p = visitedPage start k}

theorem visited_zero (start i : Nat) : visited start i 0 = ∅ := by
  ext p
  simp only [visited, Set.mem_ofPred_eq, Set.mem_empty_iff_false, iff_false]
  rintro ⟨k, low, high, -⟩
  omega

theorem visited_succ (start i n : Nat) : visited start i (n + 1) = {visitedPage start i} ∪ visited start (i + 1) n := by
  ext p
  simp only [visited, Set.mem_ofPred_eq, Set.mem_union, Set.mem_singleton_iff]
  constructor
  · rintro ⟨k, low, high, rfl⟩
    by_cases first : k = i
    · exact Or.inl (by rw [first])
    · exact Or.inr ⟨k, by omega, by omega, rfl⟩
  · rintro (rfl | ⟨k, low, high, rfl⟩)
    · exact ⟨i, by omega, by omega, rfl⟩
    · exact ⟨k, by omega, by omega, rfl⟩

variable {i n : Nat}

theorem mem_visited_iff (bound : start + (i + n) * 4096 ≤ 2 ^ 64) (p : Nat) :
    p ∈ visited start i n ↔ start / 4096 + i ≤ p ∧ p < start / 4096 + i + n := by
  constructor
  · rintro ⟨k, low, high, rfl⟩
    rw [visitedPage_eq (by omega)]
    omega
  · rintro ⟨low, high⟩
    refine ⟨p - start / 4096, by omega, by omega, ?_⟩
    rw [visitedPage_eq (by omega)]
    omega

/-- A loop of `pmm_reserve_page` calls sets the bits of the pages it visits, provided all of
them are in the bitmap. -/
theorem reservePages_ok (inside : ∀ p ∈ visited start i n, p / 8 < s.bitmapSize) :
    ∃ s', reservePages s start n i = .ok s' ∧ Reserves s s' (visited start i n) := by
  induction n generalizing s i with
  | zero => exact ⟨s, rfl, visited_zero start i ▸ Reserves.refl s⟩
  | succ n ih =>
    rw [visited_succ] at inside ⊢
    obtain ⟨t, reserved, first⟩ := pmmReservePage_ok s (u64 (start + u64 (i * 4096)))
      (inside _ (Or.inl rfl))
    obtain ⟨u, ret, rest⟩ := ih (s := t) (i := i + 1) (fun p mem => by
      rw [first.bitmapSize]
      exact inside p (Or.inr mem))
    exact ⟨u, by rw [reservePages, reserved, ok_bind, ret], first.trans rest⟩

theorem reservePages_outside {p : Nat} (mem : p ∈ visited start i n) (outside : ¬p / 8 < s.bitmapSize) :
    ∃ index, reservePages s start n i = .error (.outOfBounds index) := by
  induction n generalizing s i with
  | zero =>
    rw [visited_zero] at mem
    exact mem.elim
  | succ n ih =>
    rw [reservePages]
    by_cases inside : visitedPage start i / 8 < s.bitmapSize
    · obtain ⟨t, reserved, first⟩ := pmmReservePage_ok s _ inside
      rw [visited_succ] at mem
      rcases mem with here | later
      · rw [Set.mem_singleton_iff.mp here] at outside
        exact absurd inside outside
      · rw [reserved, ok_bind]
        exact ih later (by rwa [first.bitmapSize])
    · rw [pmmReservePage_outside inside]
      exact ⟨_, rfl⟩

theorem unreserves_progress (s : Pmm) (addr total : Nat) : Unreserves s { s with maxAddress := addr, totalMemory := total } ∅ :=
  ⟨fun q => by simp [Pmm.bit], rfl, rfl, rfl, rfl, fun counted => counted⟩

/-- The loop over the pages of one descriptor clears their bits and leaves the address of the
last one in `maxAddress`. -/
theorem unreservePages_ok (bound : start + (i + n) * 4096 ≤ 2 ^ 64)
    (managed : start / 4096 + i + n ≤ s.pageCount) (covered : s.pageCount ≤ 8 * s.bitmapSize) :
    ∃ s', unreservePages s start n i = .ok s' ∧ Unreserves s s' (visited start i n) ∧
      s'.maxAddress = if n = 0 then s.maxAddress else start + (i + n - 1) * 4096 := by
  induction n generalizing s i with
  | zero => exact ⟨s, rfl, visited_zero start i ▸ Unreserves.refl s, rfl⟩
  | succ n ih =>
    have page : visitedPage start i = start / 4096 + i := visitedPage_eq (by omega)
    obtain ⟨t, cleared, first⟩ := pmmUnreservePage_ok s (u64 (start + u64 (i * 4096)))
      (show visitedPage start i < s.pageCount by omega)
      (show visitedPage start i / 8 < s.bitmapSize by omega)
    have address : u64 (start + u64 (i * 4096)) = start + i * 4096 := by
      rw [u64_of_lt (show i * 4096 < 2 ^ 64 by omega), u64_of_lt (by omega)]
    rw [address] at cleared
    obtain ⟨t', moved⟩ : ∃ t' : Pmm, t' =
        { t with maxAddress := start + i * 4096, totalMemory := u64 (t.totalMemory + 4096) } := ⟨_, rfl⟩
    have progress : Unreserves t t' ∅ := moved ▸ unreserves_progress t _ _
    have room : start + (i + 1 + n) * 4096 ≤ 2 ^ 64 := by rwa [Nat.add_right_comm i 1 n, Nat.add_assoc]
    obtain ⟨u, ret, rest, last⟩ := ih (s := t') (i := i + 1) room
      (by rw [progress.pageCount, first.pageCount]; omega)
      (by rw [progress.pageCount, first.pageCount, progress.bitmapSize, first.bitmapSize]; exact covered)
    refine ⟨u, ?_, ?_, ?_⟩
    · simp only [unreservePages, address, cleared, ok_bind, ← moved]
      exact ret
    · rw [visited_succ, ← Set.union_empty {visitedPage start i}]
      exact (first.trans progress).trans rest
    · rw [last, if_neg (Nat.succ_ne_zero n), moved]
      split
      next none => rw [none, Nat.zero_add, Nat.add_sub_cancel]
      next => rw [show i + 1 + n - 1 = i + (n + 1) - 1 by omega]

def Conventional (map : List EfiMemoryDescriptor) (page : Nat) : Prop :=
  ∃ desc ∈ map, desc.type = conventionalType ∧ desc.physicalStart / 4096 ≤ page ∧
    page < desc.physicalStart / 4096 + desc.numberOfPages

/-- The address of the last page of the last nonempty conventional descriptor of the list. -/
def lastVisited (addr : Nat) (map : List EfiMemoryDescriptor) : Nat :=
  map.foldl (fun addr desc =>
    if desc.type = conventionalType ∧ desc.numberOfPages > 0 then
      desc.physicalStart + (desc.numberOfPages - 1) * 4096
    else addr) addr

theorem EfiMemoryDescriptor.below_word (desc : EfiMemoryDescriptor) :
    desc.physicalStart + (0 + desc.numberOfPages) * 4096 ≤ 2 ^ 64 := by
  rw [Nat.zero_add]
  exact desc.physical.trans (by omega)

theorem lastPage_eq (desc : EfiMemoryDescriptor) : desc.lastPage = visitedPage desc.physicalStart (desc.numberOfPages - 1) := by
  rw [EfiMemoryDescriptor.lastPage, addrToPage_eq, visitedPage]

theorem lastPage_of_nonempty (nonempty : desc.numberOfPages > 0) : desc.lastPage + 1 =
    desc.physicalStart / 4096 + desc.numberOfPages := by
  have physical := desc.physical
  rw [lastPage_eq, visitedPage_eq (by omega)]
  omega

theorem maxPage_bounds (map : List EfiMemoryDescriptor) (start : Nat) (bound : start < 2 ^ 40) :
    let res := map.foldl (fun maxPage desc =>
      if desc.type = conventionalType ∧ desc.numberOfPages > 0 then
        if desc.lastPage > maxPage then desc.lastPage else maxPage
      else maxPage) start
    start ≤ res ∧ res < 2 ^ 40 ∧ ∀ desc ∈ map, desc.type = conventionalType →
      desc.numberOfPages > 0 → desc.lastPage ≤ res := by
  induction map generalizing start with
  | nil => exact ⟨le_rfl, bound, by simp⟩
  | cons desc rest ih =>
    have last (nonempty : desc.numberOfPages > 0) : desc.lastPage < 2 ^ 40 := by
      have physical := desc.physical
      have value := lastPage_of_nonempty nonempty
      omega
    simp only [List.foldl_cons, List.mem_cons, forall_eq_or_imp]
    -- the descriptor at hand raises the running maximum to its own last page at most
    obtain ⟨next, raised, small, seen, value⟩ : ∃ next, start ≤ next ∧ next < 2 ^ 40 ∧
        (desc.type = conventionalType → desc.numberOfPages > 0 → desc.lastPage ≤ next) ∧
        (if desc.type = conventionalType ∧ desc.numberOfPages > 0 then
          if desc.lastPage > start then desc.lastPage else start else start) = next := by
      refine ⟨_, ?_, ?_, ?_, rfl⟩ <;> split <;> (try split) <;> omega
    rw [value]
    obtain ⟨grows, below, others⟩ := ih next small
    exact ⟨raised.trans grows, below, fun conventional nonempty =>
      (seen conventional nonempty).trans grows, others⟩

theorem maxPage_lt (map : List EfiMemoryDescriptor) : maxPage map < 2 ^ 40 :=
  (maxPage_bounds map 0 (by omega)).2.1

theorem descriptor_le_maxPage (mem : desc ∈ map) (conventional : desc.type = conventionalType) (nonempty : desc.numberOfPages > 0) :
    desc.physicalStart / 4096 + desc.numberOfPages ≤ maxPage map + 1 := by
  have last : desc.lastPage ≤ maxPage map :=
    (maxPage_bounds map 0 (by omega)).2.2 desc mem conventional nonempty
  have value := lastPage_of_nonempty nonempty
  omega

theorem Conventional.le_maxPage (conventional : Conventional map page) : page ≤ maxPage map := by
  obtain ⟨desc, mem, type, low, high⟩ := conventional
  have bound := descriptor_le_maxPage mem type (by omega)
  omega

theorem unreserveMap_cons (s : Pmm) (desc : EfiMemoryDescriptor) (rest : List EfiMemoryDescriptor) : unreserveMap s (desc :: rest) =
      (if desc.type = conventionalType then unreservePages s desc.physicalStart desc.numberOfPages 0
        else pure s) >>= fun s => unreserveMap s rest := by
  rw [unreserveMap]
  split <;> rfl

theorem conventional_singleton (conventional : desc.type = conventionalType) :
    {p | Conventional [desc] p} = visited desc.physicalStart 0 desc.numberOfPages := by
  ext p
  rw [mem_visited_iff desc.below_word]
  simp [Conventional, conventional]

theorem unreserveMap_ok (s : Pmm) (map : List EfiMemoryDescriptor)
    (managed : ∀ desc ∈ map, desc.type = conventionalType → desc.numberOfPages > 0 →
      desc.physicalStart / 4096 + desc.numberOfPages ≤ s.pageCount)
    (covered : s.pageCount ≤ 8 * s.bitmapSize) :
    ∃ s', unreserveMap s map = .ok s' ∧ Unreserves s s' {p | Conventional map p} ∧
      s'.maxAddress = lastVisited s.maxAddress map := by
  induction map generalizing s with
  | nil => exact ⟨s, rfl, by simpa [Conventional] using Unreserves.refl s, rfl⟩
  | cons desc rest ih =>
    -- the first descriptor alone
    obtain ⟨t, ret, first, last⟩ : ∃ t, (if desc.type = conventionalType then
          unreservePages s desc.physicalStart desc.numberOfPages 0 else pure s) = .ok t ∧
        Unreserves s t {p | Conventional [desc] p} ∧ t.maxAddress = lastVisited s.maxAddress [desc] := by
      by_cases conventional : desc.type = conventionalType
      · rw [if_pos conventional, conventional_singleton conventional]
        rcases Nat.eq_zero_or_pos desc.numberOfPages with empty | nonempty
        · refine ⟨s, by rw [empty]; rfl, by rw [empty, visited_zero]; exact Unreserves.refl s, ?_⟩
          simp [lastVisited, empty]
        · obtain ⟨t, ret, cleared, last⟩ := unreservePages_ok (s := s) (i := 0)
            desc.below_word (managed desc List.mem_cons_self conventional nonempty) covered
          refine ⟨t, ret, cleared, ?_⟩
          rw [last, if_neg (by omega), Nat.zero_add]
          simp [lastVisited, conventional, nonempty]
      · refine ⟨s, by rw [if_neg conventional]; rfl, ?_, ?_⟩
        · simpa [Conventional, conventional] using Unreserves.refl s
        · simp [lastVisited, conventional]
    obtain ⟨u, rest_returned, others, final⟩ := ih t
      (fun d mem => by rw [first.pageCount]; exact managed d (List.mem_cons_of_mem _ mem))
      (by rw [first.pageCount, first.bitmapSize]; exact covered)
    refine ⟨u, ?_, ?_, ?_⟩
    · rw [unreserveMap_cons, ret, ok_bind, rest_returned]
    · have split : {p | Conventional (desc :: rest) p} =
          {p | Conventional [desc] p} ∪ {p | Conventional rest p} := by
        ext p
        simp [Conventional]
      rw [split]
      exact first.trans others
    · rw [final, last]
      simp [lastVisited]

theorem blankPmm_bit (pageCount bitmapSize bitmapAddr p : Nat) :
    (blankPmm pageCount bitmapSize bitmapAddr).bit p = decide (p / 8 < bitmapSize) := by
  have ones (k : Nat) (bound : k < 8) : (0xFF#8).getLsbD k = true := by
    have all : ∀ k : Fin 8, (0xFF#8).getLsbD k = true := by decide
    exact all ⟨k, bound⟩
  by_cases inside : p / 8 < bitmapSize
  · simp [Pmm.bit, blankPmm, inside, ones (p % 8) (by omega)]
  · simp [Pmm.bit, blankPmm, inside]

theorem blankPmm_counted {pageCount bitmapSize : Nat} (covered : pageCount ≤ 8 * bitmapSize)
    (bitmapAddr : Nat) : (blankPmm pageCount bitmapSize bitmapAddr).Counted := by
  have every : (Finset.range pageCount).filter
      (fun p => (blankPmm pageCount bitmapSize bitmapAddr).bit p = true) = Finset.range pageCount := by
    apply Finset.filter_true_of_mem
    intro p mem
    rw [Finset.mem_range] at mem
    rw [blankPmm_bit, decide_eq_true_eq]
    omega
  have all : (blankPmm pageCount bitmapSize bitmapAddr).usedPages = pageCount := by
    rw [Pmm.usedPages]
    exact (congrArg Finset.card every).trans (Finset.card_range pageCount)
  rw [Pmm.Counted, all, Nat.mul_comm, blankPmm]

/-- The pages `pmm_reserve_region` visits, whatever the sign of the size. -/
def regionVisited (addr : Nat) (size : Int) : Set Nat :=
  visited (regionStart addr) 0 (regionPages addr size)

/-- The page has a byte in common with the `size` bytes at `addr`. -/
def InRegion (addr size page : Nat) : Prop := addr < (page + 1) * 4096 ∧ page * 4096 < addr + size

theorem and_pageMask (bound : addr < 2 ^ 64) : addr &&& 0xFFFFFFFFFFFFF000 = addr / 4096 * 4096 := by
  have field := and_field addr 52 12
  have small : addr / 2 ^ 12 % 2 ^ 52 = addr / 4096 := by omega
  rw [small] at field
  exact field

theorem regionVisited_iff {size : Nat} (small : size < 2 ^ 31) (bound : addr + size + 4096 ≤ 2 ^ 64)
    (page : Nat) : page ∈ regionVisited addr (size : Int) ↔ InRegion addr size page := by
  have start : regionStart addr = addr / 4096 * 4096 := and_pageMask (by omega)
  have stop : regionEnd addr size = (addr + size + 4095) / 4096 * 4096 := by
    rw [regionEnd, sext64_natCast (by omega), u64_of_lt (show addr + size < 2 ^ 64 by omega),
      u64_of_lt (by omega), and_pageMask (by omega)]
  have pages : regionPages addr size = (addr + size + 4095) / 4096 - addr / 4096 := by
    rw [regionPages, start, stop, sub64_of_le (by omega)]
    omega
  rw [regionVisited, start, pages, mem_visited_iff (by omega), InRegion]
  omega

/-- The pages `pmm_init` reserves again after it has cleared the conventional ones. -/
def Rereserved (bitmapAddr bitmapSize : Nat) (kernel : KernelImage) : Set Nat :=
  ({0} ∪ regionVisited bitmapAddr (i32 bitmapSize)) ∪
    regionVisited kernel.physStart (i32 (sub64 kernel.physEnd kernel.physStart))

/-- What holds of the state `pmm_init` returns. -/
structure Initialized (map : List EfiMemoryDescriptor) (kernel : KernelImage) (s : Pmm) : Prop where
  pageCount : s.pageCount = maxPage map + 1
  bitmapSize : s.bitmapSize = (s.pageCount + 7) / 8
  bitmapFound : findBitmap s.bitmapSize map = some s.bitmapAddr
  lastIndex : s.lastIndex = 0
  maxAddress : s.maxAddress = lastVisited 0 map
  bit : ∀ p, s.bit p = true ↔ p ∈ Rereserved s.bitmapAddr s.bitmapSize kernel ∨
    ¬Conventional map p ∧ p / 8 < s.bitmapSize
  inside : ∀ p ∈ Rereserved s.bitmapAddr s.bitmapSize kernel, p / 8 < s.bitmapSize
  counted : s.Counted

theorem pmmInit_sizes (map : List EfiMemoryDescriptor) : u64 (maxPage map + 1) = maxPage map + 1 ∧
      u64 (u64 (maxPage map + 1) + 7) / 8 = (maxPage map + 1 + 7) / 8 := by
  have bound := maxPage_lt map
  have pages : u64 (maxPage map + 1) = maxPage map + 1 := u64_of_lt (by omega)
  rw [pages, u64_of_lt (by omega)]
  exact ⟨rfl, rfl⟩

/-- `pmm_init` is the panic, or the three reserving steps after the clearing of the
conventional pages, which cannot fail. -/
theorem pmmInit_eq (map : List EfiMemoryDescriptor) (kernel : KernelImage) : (findBitmap ((maxPage map + 1 + 7) / 8) map = none ∧
      pmmInit map kernel = .error (.panic "PMM: failed to find space for bitmap")) ∨
    ∃ bitmapAddr s, findBitmap ((maxPage map + 1 + 7) / 8) map = some bitmapAddr ∧
      Unreserves (blankPmm (maxPage map + 1) ((maxPage map + 1 + 7) / 8) bitmapAddr) s
        {p | Conventional map p} ∧
      s.maxAddress = lastVisited 0 map ∧
      pmmInit map kernel = (do
        let s ← pmmReservePage s 0
        let s ← pmmReserveRegion s bitmapAddr (i32 ((maxPage map + 1 + 7) / 8))
        pmmReserveRegion s kernel.physStart (i32 (sub64 kernel.physEnd kernel.physStart))) := by
  obtain ⟨pages, size⟩ := pmmInit_sizes map
  unfold pmmInit
  simp only [size]
  simp only [pages]
  cases found : findBitmap ((maxPage map + 1 + 7) / 8) map with
  | none => exact Or.inl ⟨rfl, rfl⟩
  | some bitmapAddr =>
    obtain ⟨s, ret, cleared, last⟩ := unreserveMap_ok
      (blankPmm (maxPage map + 1) ((maxPage map + 1 + 7) / 8) bitmapAddr) map
      (fun desc mem conventional nonempty => descriptor_le_maxPage mem conventional nonempty)
      (show maxPage map + 1 ≤ 8 * ((maxPage map + 1 + 7) / 8) by omega)
    refine Or.inr ⟨bitmapAddr, s, rfl, cleared, last, ?_⟩
    simp only [ret, ok_bind]

/-- The three reserving steps turn the cleared bitmap into the final one. -/
theorem initialized_of_reserves {bitmapAddr : Nat} {t : Pmm} (found : findBitmap ((maxPage map + 1 + 7) / 8) map = some bitmapAddr)
    (cleared : Unreserves (blankPmm (maxPage map + 1) ((maxPage map + 1 + 7) / 8) bitmapAddr) s
      {p | Conventional map p})
    (last : s.maxAddress = lastVisited 0 map)
    (reserved : Reserves s t (Rereserved bitmapAddr ((maxPage map + 1 + 7) / 8) kernel))
    (inside : ∀ p ∈ Rereserved bitmapAddr ((maxPage map + 1 + 7) / 8) kernel, p / 8 < s.bitmapSize) :
    Initialized map kernel t := by
  have pageCount : t.pageCount = maxPage map + 1 := reserved.pageCount.trans cleared.pageCount
  have bitmapSize : t.bitmapSize = (maxPage map + 1 + 7) / 8 :=
    reserved.bitmapSize.trans cleared.bitmapSize
  have address : t.bitmapAddr = bitmapAddr := reserved.bitmapAddr.trans cleared.bitmapAddr
  have bits (p : Nat) : s.bit p = true ↔ ¬Conventional map p ∧ p / 8 < (maxPage map + 1 + 7) / 8 := by
    rw [cleared.bit, blankPmm_bit, decide_eq_true_eq]
    rfl
  have padded : s.Padded := by
    intro p past inside
    rw [cleared.pageCount] at past
    rw [cleared.bitmapSize] at inside
    exact (bits p).mpr ⟨fun conventional => absurd (Nat.lt_succ_of_le conventional.le_maxPage) (Nat.not_lt.mpr past),
      inside⟩
  have counted : s.Counted := cleared.counted (blankPmm_counted (by omega) bitmapAddr)
  refine ⟨pageCount, by rw [bitmapSize, pageCount], by rw [bitmapSize, address, found],
    reserved.lastIndex.trans cleared.lastIndex, reserved.maxAddress.trans last, fun p => ?_, ?_,
    reserved.counted padded counted⟩
  · rw [reserved.bit, bits, bitmapSize, address]
  · rw [bitmapSize, address]
    exact fun p mem => (inside p mem).trans_eq cleared.bitmapSize

theorem pmmReserveRegion_cases (s : Pmm) (addr : Nat) (size : Int) :
    (∃ t, pmmReserveRegion s addr size = .ok t ∧ Reserves s t (regionVisited addr size) ∧
      ∀ p ∈ regionVisited addr size, p / 8 < s.bitmapSize) ∨
    ∃ index, pmmReserveRegion s addr size = .error (.outOfBounds index) ∧
      ∃ p ∈ regionVisited addr size, ¬p / 8 < s.bitmapSize := by
  by_cases inside : ∀ p ∈ regionVisited addr size, p / 8 < s.bitmapSize
  · obtain ⟨t, ret, reserved⟩ := reservePages_ok inside
    exact Or.inl ⟨t, ret, reserved, inside⟩
  · push Not at inside
    obtain ⟨p, mem, outside⟩ := inside
    obtain ⟨index, stopped⟩ := reservePages_outside mem (Nat.not_lt.mpr outside)
    exact Or.inr ⟨index, stopped, p, mem, Nat.not_lt.mpr outside⟩

/-- `pmm_init` finds no room for the bitmap, or leaves the bitmap while it reserves a region, or
returns an initialized state. -/
theorem pmmInit_cases (map : List EfiMemoryDescriptor) (kernel : KernelImage) : (findBitmap ((maxPage map + 1 + 7) / 8) map = none ∧
      pmmInit map kernel = .error (.panic "PMM: failed to find space for bitmap")) ∨
    (∃ bitmapAddr index, findBitmap ((maxPage map + 1 + 7) / 8) map = some bitmapAddr ∧
      pmmInit map kernel = .error (.outOfBounds index) ∧
      ∃ p ∈ Rereserved bitmapAddr ((maxPage map + 1 + 7) / 8) kernel, ¬p / 8 < (maxPage map + 1 + 7) / 8) ∨
    ∃ s, pmmInit map kernel = .ok s ∧ Initialized map kernel s := by
  rcases pmmInit_eq map kernel with panics | ⟨bitmapAddr, s, found, cleared, last, equation⟩
  · exact Or.inl panics
  have size : s.bitmapSize = (maxPage map + 1 + 7) / 8 := cleared.bitmapSize
  obtain ⟨first, reserved, zero⟩ := pmmReservePage_ok s 0 (by rw [size]; omega)
  rw [reserved, ok_bind] at equation
  rw [equation]
  have outside {p : Nat} {t : Pmm} (same : t.bitmapSize = s.bitmapSize) (out : ¬p / 8 < t.bitmapSize) :
      ¬p / 8 < (maxPage map + 1 + 7) / 8 := by rwa [same, size] at out
  rcases pmmReserveRegion_cases first bitmapAddr (i32 ((maxPage map + 1 + 7) / 8)) with
    ⟨second, ret, bitmap, bitmapInside⟩ | ⟨index, stopped, p, mem, out⟩
  · rw [ret, ok_bind]
    have both := zero.trans bitmap
    rcases pmmReserveRegion_cases second kernel.physStart (i32 (sub64 kernel.physEnd kernel.physStart)) with
      ⟨third, done, image, imageInside⟩ | ⟨index, stopped, p, mem, out⟩
    · refine Or.inr (Or.inr ⟨third, done,
        initialized_of_reserves found cleared last (both.trans image) ?_⟩)
      rintro p ((rfl | mem) | mem)
      · rw [size]
        omega
      · exact zero.bitmapSize ▸ bitmapInside p mem
      · exact both.bitmapSize ▸ imageInside p mem
    · exact Or.inr (Or.inl ⟨bitmapAddr, index, found, stopped, p, Or.inr mem, outside both.bitmapSize out⟩)
  · rw [stopped, error_bind]
    exact Or.inr (Or.inl ⟨bitmapAddr, index, found, rfl, p, Or.inl (Or.inr mem),
      outside zero.bitmapSize out⟩)

theorem pmmInit_panics_iff (map : List EfiMemoryDescriptor) (kernel : KernelImage) :
    (∃ msg, pmmInit map kernel = .error (.panic msg)) ↔ findBitmap ((maxPage map + 1 + 7) / 8) map = none := by
  constructor
  · rintro ⟨msg, panics⟩
    rcases pmmInit_cases map kernel with ⟨none, -⟩ | ⟨addr, index, -, stopped, -⟩ | ⟨s, ret, -⟩
    · exact none
    · rw [stopped] at panics
      cases panics
    · rw [ret] at panics
      cases panics
  · intro none
    rcases pmmInit_eq map kernel with ⟨-, panics⟩ | ⟨addr, s, found, -⟩
    · exact ⟨_, panics⟩
    · rw [none] at found
      cases found

theorem pmmInit_ok (ret : pmmInit map kernel = .ok s) : Initialized map kernel s := by
  rcases pmmInit_cases map kernel with ⟨-, panics⟩ | ⟨-, index, -, stopped, -⟩ | ⟨t, res, initialized⟩
  · rw [panics] at ret
    cases ret
  · rw [stopped] at ret
    cases ret
  · rw [res, Except.ok.injEq] at ret
    exact ret ▸ initialized

theorem Initialized.valid (initialized : Initialized map kernel s) : s.Valid := by
  have bound := maxPage_lt map
  have pages := initialized.pageCount
  have size := initialized.bitmapSize
  have hint := initialized.lastIndex
  exact ⟨by omega, by omega, by omega⟩

end Xos.Memory
