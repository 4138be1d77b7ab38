import Xos.Lib.Pool
import Xos.Memory.PmmInitCorrectness

/-!
# Runs of the page allocator

A ledger is the allocator with the pages that it has handed out. Runs refine the pool of `Lib.Pool`. A free run that
crosses the hint is seen by neither pass of the search.
-/
namespace Xos.Memory

open Word Lib Relation Outcome Pmm

/-- A call of `pmm_alloc_page` or `pmm_alloc_pages`. -/
inductive Request where
  | page
  | pages (count : Nat)
  deriving DecidableEq, Repr

namespace Request

def count : Request → Nat
  | .page => 1
  | .pages n => n

/-- The count of `pmm_alloc_pages` is a nonzero `uint`. -/
def Legal (r : Request) : Prop := 1 ≤ r.count ∧ r.count < 2 ^ 32

def run (s : Pmm) : Request → Outcome (Pmm × Nat)
  | .page => pmmAllocPage s
  | .pages n => pmmAllocPages s n

end Request

theorem onePage_legal : Request.page.Legal := ⟨le_rfl, by simp only [Request.count]; omega⟩

theorem twoPages_legal : (Request.pages 2).Legal := by
  constructor <;> simp only [Request.count] <;> omega

variable {s : Pmm}

theorem not_hasWindow_one {lo hi : Nat} (used : ∀ p, lo ≤ p → p < hi → s.bit p = true) : ¬HasWindow s.isFree lo hi 1 := by
  rintro ⟨first, low, high, window⟩
  have clear := window first (by omega) (by omega)
  rw [isFree, used first low (by omega)] at clear
  cases clear

theorem Request.run_spec (valid : s.Valid) {r : Request} (legal : r.Legal) :
    (∃ f, f + r.count ≤ s.pageCount ∧ (s.lastIndex ≤ f ∨ f + r.count ≤ s.lastIndex) ∧
      Window s.isFree f r.count ∧ r.run s = .ok (s.allocated f r.count, f * 4096)) ∨
    (¬HasWindow s.isFree s.lastIndex s.pageCount r.count ∧
      ¬HasWindow s.isFree 0 s.lastIndex r.count ∧ r.run s = .error outOfMemory) := by
  cases r with
  | pages n => exact pmmAllocPages_spec valid legal.1 legal.2
  | page =>
    have hint := valid.hint
    rcases pmmAllocPage_spec valid with ⟨i, bound, clear, -, -, ret⟩ | ⟨used, stopped⟩
    · left
      refine ⟨i, bound, by simp only [Request.count]; omega, fun p low high => ?_, ret⟩
      rw [show p = i by simp only [Request.count] at high; omega, isFree, clear]
      rfl
    · right
      exact ⟨not_hasWindow_one fun p _ high => used p high,
        not_hasWindow_one fun p _ high => used p (by omega), stopped⟩

theorem Request.run_ok {s' : Pmm} {addr : Nat} (valid : s.Valid) {r : Request} (legal : r.Legal) (ret : r.run s = .ok (s', addr)) :
    addr % 4096 = 0 ∧ addr / 4096 + r.count ≤ s.pageCount ∧
      Window s.isFree (addr / 4096) r.count ∧ s' = s.allocated (addr / 4096) r.count := by
  rcases Request.run_spec valid legal with ⟨f, fits, -, window, res⟩ | ⟨-, -, stopped⟩
  · rw [res, Except.ok.injEq, Prod.mk.injEq] at ret
    obtain ⟨rfl, rfl⟩ := ret
    rw [Nat.mul_div_cancel _ (by norm_num)]
    exact ⟨Nat.mul_mod_left _ _, fits, window, rfl⟩
  · rw [stopped] at ret
    cases ret

structure Ledger where
  pmm : Pmm
  held : Set Nat

def pagesFrom (addr count : Nat) : Set Nat := {p | addr / 4096 ≤ p ∧ p < addr / 4096 + count}

inductive PmmStep : Ledger → Ledger → Prop
  | alloc {s s' : Pmm} {held : Set Nat} {addr : Nat} (r : Request) (legal : r.Legal)
      (returned : r.run s = .ok (s', addr)) :
      PmmStep ⟨s, held⟩ ⟨s', held ∪ pagesFrom addr r.count⟩
  | free {s s' : Pmm} {held : Set Nat} {addr : Nat} (owned : addr / 4096 ∈ held)
      (returned : pmmFreePage s addr = .ok s') :
      PmmStep ⟨s, held⟩ ⟨s', held \ {addr / 4096}⟩

structure Ledger.Sound (l : Ledger) : Prop where
  valid : l.pmm.Valid
  marked : ∀ p ∈ l.held, p < l.pmm.pageCount ∧ l.pmm.bit p = true

theorem Ledger.Sound.start (valid : s.Valid) : Ledger.Sound ⟨s, ∅⟩ :=
  ⟨valid, fun _ mem => mem.elim⟩

variable {l l' : Ledger}

theorem Ledger.Sound.step (sound : l.Sound) (step : PmmStep l l') : l'.Sound := by
  obtain ⟨valid, marked⟩ := sound
  cases step with
  | alloc r legal ret =>
    obtain ⟨-, fits, -, rfl⟩ := Request.run_ok valid legal ret
    refine ⟨valid.allocated fits, fun p mem => ?_⟩
    rw [allocated_pageCount, allocated_bit]
    rcases mem with old | ⟨low, high⟩
    · obtain ⟨bound, used⟩ := marked p old
      exact ⟨bound, by simpa using Or.inr used⟩
    · exact ⟨high.trans_le fits, by simpa using Or.inl ⟨low, high⟩⟩
  | free owned ret =>
    obtain ⟨-, -, -, rfl⟩ := (pmmFreePage_ok_iff valid _).mp ret
    refine ⟨valid.released _, fun p mem => ?_⟩
    obtain ⟨bound, used⟩ := marked p mem.1
    rw [released_pageCount, released_bit]
    exact ⟨bound, by simpa [used] using mem.2⟩

theorem Ledger.Sound.run (sound : l.Sound) (run : ReflTransGen PmmStep l l') : l'.Sound :=
  invariant_of_run Ledger.Sound (fun _ _ inv step => inv.step step) run sound

theorem PmmStep.pageCount (sound : l.Sound) (step : PmmStep l l') : l'.pmm.pageCount = l.pmm.pageCount := by
  cases step with
  | alloc r legal ret =>
    obtain ⟨-, -, -, rfl⟩ := Request.run_ok sound.valid legal ret
    exact allocated_pageCount _ _ _
  | free owned ret =>
    obtain ⟨-, -, -, rfl⟩ := (pmmFreePage_ok_iff sound.valid _).mp ret
    exact released_pageCount _ _

def Ledger.Sound.pool {l : Ledger} (sound : l.Sound) : Pool Nat where
  free := {p | p < l.pmm.pageCount ∧ l.pmm.bit p = false}
  held := l.held
  apart := by
    rw [Set.disjoint_left]
    rintro p ⟨-, clear⟩ member
    rw [(sound.marked p member).2] at clear
    cases clear

theorem PmmStep.refines (sound : l.Sound) (step : PmmStep l l') : sound.pool.Step (sound.step step).pool := by
  have valid := sound.valid
  cases step with
  | @alloc s s' held addr r legal ret =>
    obtain ⟨-, fits, window, rfl⟩ := Request.run_ok valid legal ret
    have available : pagesFrom addr r.count ⊆ sound.pool.free := by
      rintro p ⟨low, high⟩
      have clear := window p low high
      exact ⟨high.trans_le fits, by simpa [isFree] using clear⟩
    convert Pool.Step.take _ available using 1
    refine Pool.ext (Set.ext fun p => ?_) rfl
    change (p < (s.allocated _ _).pageCount ∧ (s.allocated _ _).bit p = false) ↔
      (p < s.pageCount ∧ s.bit p = false) ∧ ¬(addr / 4096 ≤ p ∧ p < addr / 4096 + r.count)
    simp only [allocated_pageCount, allocated_bit, Bool.or_eq_false_iff, decide_eq_false_iff_not]
    tauto
  | @free s s' held addr owned ret =>
    obtain ⟨-, range, used, rfl⟩ := (pmmFreePage_ok_iff valid _).mp ret
    have given : {addr / 4096} ⊆ sound.pool.held := Set.singleton_subset_iff.mpr owned
    convert Pool.Step.give _ given using 1
    refine Pool.ext (Set.ext fun p => ?_) rfl
    change (p < (s.released _).pageCount ∧ (s.released _).bit p = false) ↔
      (p < s.pageCount ∧ s.bit p = false) ∨ p = addr / 4096
    simp only [released_pageCount, released_bit, Bool.and_eq_false_iff, Bool.not_eq_false',
      decide_eq_true_eq]
    constructor
    · rintro ⟨bound, same | clear⟩
      · exact Or.inr same
      · exact Or.inl ⟨bound, clear⟩
    · rintro (⟨bound, clear⟩ | same)
      · exact ⟨bound, Or.inr clear⟩
      · exact ⟨same ▸ range, Or.inl same⟩

/-- Every run of the page allocator is a run of a pool of pages, so that at any time the clear pages and the held ones
together are those that were clear at the start. -/
theorem pmm_refines_pool (s : Pmm) (valid : s.Valid) (l : Ledger) (run : ReflTransGen PmmStep ⟨s, ∅⟩ l) :
    ∃ sound : l.Sound, ReflTransGen Pool.Step (Ledger.Sound.start valid).pool sound.pool ∧
      {p | p < l.pmm.pageCount ∧ l.pmm.bit p = false} ∪ l.held = {p | p < s.pageCount ∧ s.bit p = false} := by
  induction run with
  | refl => exact ⟨.start valid, .refl, Set.union_empty _⟩
  | tail run last ih =>
    obtain ⟨sound, pools, all⟩ := ih
    have step := last.refines sound
    exact ⟨sound.step last, pools.tail step, step.all.trans all⟩

/-- After start-up one page is taken. -/
theorem twoRanges_pool_kept : ∃ s, ∃ l : Ledger, pmmInit twoRanges kernelAtBase = .ok s ∧ l.held.Nonempty ∧
    {p | p < l.pmm.pageCount ∧ l.pmm.bit p = false} ∪ l.held = {p | p < s.pageCount ∧ s.bit p = false} := by
  have runs : (pmmInit twoRanges kernelAtBase >>= Request.page.run).isOk = true := by decide +kernel
  obtain ⟨⟨s', first⟩, ret⟩ := isOk_iff.mp runs
  obtain ⟨s, started, one⟩ := of_bind ret
  obtain ⟨-, -, all⟩ := pmm_refines_pool s (pmmInit_ok started).valid _ (.single (.alloc .page onePage_legal one))
  exact ⟨s, _, started, ⟨_, Or.inr ⟨le_rfl, Nat.lt_succ_self _⟩⟩, all⟩

/-- Whatever has been allocated and freed before, an allocation that returns hands out
consecutive managed pages, all of them clear and held by nobody, and changes exactly their
bits. A free changes exactly the bit of its page. The hint stays inside the managed range. -/
theorem allocations_are_fresh (s : Pmm) (valid : s.Valid) (l : Ledger)
    (run : ReflTransGen PmmStep ⟨s, ∅⟩ l) :
    l.pmm.lastIndex ≤ l.pmm.pageCount ∧ l.pmm.pageCount = s.pageCount ∧
    (∀ (r : Request) (s' : Pmm) (addr : Nat), r.Legal → r.run l.pmm = .ok (s', addr) →
      addr % 4096 = 0 ∧ addr / 4096 + r.count ≤ s.pageCount ∧
      (∀ p ∈ pagesFrom addr r.count, l.pmm.bit p = false ∧ p ∉ l.held) ∧
      (∀ p, s'.bit p ≠ l.pmm.bit p ↔ p ∈ pagesFrom addr r.count)) ∧
    (∀ (s' : Pmm) (addr : Nat), addr / 4096 ∈ l.held → pmmFreePage l.pmm addr = .ok s' →
      ∀ p, s'.bit p ≠ l.pmm.bit p ↔ p = addr / 4096) := by
  have sound := (Ledger.Sound.start valid).run run
  have pages : l.pmm.pageCount = s.pageCount := by
    refine (invariant_of_run (fun l => l.Sound ∧ l.pmm.pageCount = s.pageCount) ?_ run
      ⟨Ledger.Sound.start valid, rfl⟩).2
    rintro a b ⟨inv, same⟩ step
    exact ⟨inv.step step, (step.pageCount inv).trans same⟩
  refine ⟨sound.valid.hint, pages, ?_, ?_⟩
  · intro r s' addr legal returned
    obtain ⟨aligned, fits, window, rfl⟩ := Request.run_ok sound.valid legal returned
    have clear : ∀ p ∈ pagesFrom addr r.count, l.pmm.bit p = false := by
      rintro p ⟨low, high⟩
      simpa [isFree] using window p low high
    refine ⟨aligned, by omega, fun p member => ⟨clear p member, fun old => ?_⟩, fun p => ?_⟩
    · have used := (sound.marked p old).2
      rw [clear p member] at used
      cases used
    · rw [allocated_bit]
      by_cases member : addr / 4096 ≤ p ∧ p < addr / 4096 + r.count
      · simp [pagesFrom, member, clear p member]
      · simp [pagesFrom, member]
  · intro s' addr owned returned p
    obtain ⟨-, -, used, rfl⟩ := (pmmFreePage_ok_iff sound.valid _).mp returned
    rw [released_bit]
    by_cases same : p = addr / 4096
    · simp [same, used]
    · simp [same]

/-- After start-up on two ranges the second allocated page is not the first one. -/
theorem twoRanges_second_page_fresh : ∃ s s' s'' first second, pmmInit twoRanges kernelAtBase = .ok s ∧
    Request.page.run s = .ok (s', first) ∧ Request.page.run s' = .ok (s'', second) ∧
    ∀ p ∈ pagesFrom second 1, p ∉ pagesFrom first 1 := by
  have runs : (pmmInit twoRanges kernelAtBase >>= fun s => Request.page.run s >>=
      fun r => Request.page.run r.1).isOk = true := by decide +kernel
  obtain ⟨⟨s'', second⟩, returned⟩ := isOk_iff.mp runs
  obtain ⟨s, ⟨s', first⟩, started, one, two⟩ := of_bind₂ returned
  have fresh := allocations_are_fresh s (pmmInit_ok started).valid _
    (ReflTransGen.single (PmmStep.alloc .page onePage_legal one))
  refine ⟨s, s', s'', first, second, started, one, two, fun p member old => ?_⟩
  exact ((fresh.2.2.1 .page s'' second onePage_legal two).2.2.1 p member).2 (Or.inr old)

/-- Some run of `n` free pages starts below the hint and ends above it. -/
def Pmm.Straddled (s : Pmm) (n : Nat) : Prop :=
  ∃ first, first + n ≤ s.pageCount ∧ first < s.lastIndex ∧ s.lastIndex < first + n ∧
    Window s.isFree first n

theorem Pmm.hasWindow_iff (valid : s.Valid) (n : Nat) : HasWindow s.isFree 0 s.pageCount n ↔ HasWindow s.isFree 0 s.lastIndex n ∨
      HasWindow s.isFree s.lastIndex s.pageCount n ∨ s.Straddled n := by
  rw [hasWindow_split s.lastIndex (Nat.zero_le _) valid.hint]
  simp only [Nat.zero_le, true_and]
  rfl

/-- In every state that allocations and frees can reach, the out-of-memory panic of a request
means that no run of that many free pages exists, exactly when a free run across the hint is
never the only one left. -/
theorem out_of_memory_means_exhausted_iff (s : Pmm) (valid : s.Valid) (l : Ledger)
    (run : ReflTransGen PmmStep ⟨s, ∅⟩ l) (r : Request) (legal : r.Legal) :
    (r.run l.pmm = .error outOfMemory → ¬HasWindow l.pmm.isFree 0 l.pmm.pageCount r.count) ↔
    (l.pmm.Straddled r.count → HasWindow l.pmm.isFree 0 l.pmm.lastIndex r.count ∨
      HasWindow l.pmm.isFree l.pmm.lastIndex l.pmm.pageCount r.count) := by
  have sound := (Ledger.Sound.start valid).run run
  rw [hasWindow_iff sound.valid]
  rcases Request.run_spec sound.valid legal with
    ⟨f, fits, side, window, returned⟩ | ⟨upper, lower, stopped⟩
  · -- the request was served, so one of the two passes has seen a run
    have seen : HasWindow l.pmm.isFree 0 l.pmm.lastIndex r.count ∨
        HasWindow l.pmm.isFree l.pmm.lastIndex l.pmm.pageCount r.count := by
      rcases side with above | below
      · exact Or.inr ⟨f, above, fits, window⟩
      · exact Or.inl ⟨f, Nat.zero_le _, below, window⟩
    simp [returned, seen]
  · simp [stopped, upper, lower]

/-- Two pages are allocated, the first is freed, two pages are allocated together, and then the
second page is freed. -/
def straddlingRun (s : Pmm) : Outcome Pmm := do
  let (s, first) ← pmmAllocPage s
  let (s, second) ← pmmAllocPage s
  let s ← pmmFreePage s first
  let (s, _) ← pmmAllocPages s 2
  pmmFreePage s second

theorem straddlingRun_reaches {s' : Pmm} (valid : s.Valid) (ret : straddlingRun s = .ok s') :
    ∃ held, ReflTransGen PmmStep ⟨s, ∅⟩ ⟨s', held⟩ := by
  obtain ⟨⟨a, first⟩, one, ret⟩ := of_bind ret
  obtain ⟨⟨b, second⟩, two, ret⟩ := of_bind ret
  obtain ⟨c, ⟨d, both⟩, three, four, five⟩ := of_bind₂ ret
  have here (addr : Nat) : addr / 4096 ∈ pagesFrom addr 1 := ⟨le_rfl, Nat.lt_succ_self _⟩
  have alloc₁ : PmmStep ⟨s, ∅⟩ ⟨a, ∅ ∪ pagesFrom first 1⟩ := .alloc .page onePage_legal one
  have alloc₂ : PmmStep ⟨a, ∅ ∪ pagesFrom first 1⟩ ⟨b, ∅ ∪ pagesFrom first 1 ∪ pagesFrom second 1⟩ :=
    .alloc .page onePage_legal two
  -- the second page was clear when the first one was already marked
  have differ : second / 4096 ≠ first / 4096 := by
    have sound := (Ledger.Sound.start valid).step alloc₁
    have marked := (sound.marked _ (Or.inr (here first))).2
    have clear := (Request.run_ok (r := .page) sound.valid onePage_legal two).2.2.1 (second / 4096)
      le_rfl (Nat.lt_succ_self _)
    intro same
    rw [same, isFree, marked] at clear
    cases clear
  have run := (ReflTransGen.single alloc₁).tail alloc₂
  have run := run.tail (.free (Or.inl (Or.inr (here first))) three)
  have run := run.tail (.alloc (.pages 2) twoPages_legal four)
  exact ⟨_, run.tail (.free (Or.inl ⟨Or.inr (here second), differ⟩) five)⟩

/-- After this run from start-up the two freed pages are adjacent, one on each side of the hint,
and a request for two pages panics. -/
theorem twoRanges_straddled : ∃ s l, pmmInit twoRanges kernelAtBase = .ok s ∧
    ReflTransGen PmmStep ⟨s, ∅⟩ l ∧ (Request.pages 2).run l.pmm = .error outOfMemory ∧
    HasWindow l.pmm.isFree 0 l.pmm.pageCount 2 := by
  have ends : (pmmInit twoRanges kernelAtBase >>= straddlingRun).isOk = true := by decide +kernel
  have fails : (pmmInit twoRanges kernelAtBase >>= fun s => straddlingRun s >>= fun s' =>
      pmmAllocPages s' 2).isOk = false := by decide +kernel
  have bits : (pmmInit twoRanges kernelAtBase >>= fun s => straddlingRun s >>= fun s' =>
      pure (s'.bit 2, s'.bit 3, s'.pageCount)).toOption = some (false, false, 769) := by decide +kernel
  obtain ⟨s', ended⟩ := isOk_iff.mp ends
  obtain ⟨s, started, ended⟩ := of_bind ended
  have valid := (pmmInit_ok started).valid
  obtain ⟨held, run⟩ := straddlingRun_reaches valid ended
  simp only [started, ended, ok_bind] at fails bits
  have facts := Option.some.inj bits
  simp only [Prod.mk.injEq] at facts
  obtain ⟨second, third, pages⟩ := facts
  refine ⟨s, ⟨s', held⟩, started, run, ?_, 2, by omega, by simp only [pages]; omega, ?_⟩
  · rcases Request.run_spec ((Ledger.Sound.start valid).run run).valid twoPages_legal with
      ⟨f, -, -, -, returned⟩ | ⟨-, -, stopped⟩
    · rw [Request.run] at returned
      rw [returned] at fails
      cases fails
    · exact stopped
  · intro p low high
    obtain rfl | rfl : p = 2 ∨ p = 3 := by omega
    · simp [isFree, second]
    · simp [isFree, third]

/-- Right after start-up nothing straddles the hint. -/
theorem twoRanges_not_straddled : ∃ s, pmmInit twoRanges kernelAtBase = .ok s ∧
    ((Request.pages 2).run s = .error outOfMemory → ¬HasWindow s.isFree 0 s.pageCount 2) := by
  have starts : (pmmInit twoRanges kernelAtBase).isOk = true := by decide +kernel
  obtain ⟨s, started⟩ := isOk_iff.mp starts
  have initialized := pmmInit_ok started
  have hint := initialized.lastIndex
  refine ⟨s, started, (out_of_memory_means_exhausted_iff s initialized.valid ⟨s, ∅⟩ .refl (.pages 2)
    twoPages_legal).mpr ?_⟩
  rintro ⟨first, -, below, -⟩
  change first < s.lastIndex at below
  omega

end Xos.Memory
