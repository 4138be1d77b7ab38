import Xos.Memory.PmmRuns
import Xos.Memory.VmmMapping

/-!
# The direct map and the pages of the allocator

`max_address` is the address of the page that `pmm_init` has cleared last. `vmm_map_hhdm` maps up to that address, which
leaves the page itself out.
-/
namespace Xos.Memory

open Word Lib Relation Outcome Option Finset

def CanReturn (s : Pmm) (page : Nat) : Prop :=
  ∃ l r s' addr, ReflTransGen PmmStep ⟨s, ∅⟩ l ∧ Request.Legal r ∧ r.run l.pmm = .ok (s', addr) ∧ page ∈ pagesFrom addr r.count

private structure FromStart (s : Pmm) (l : Ledger) : Prop where
  sound : l.Sound
  pageCount : l.pmm.pageCount = s.pageCount
  clear : ∀ p, p < l.pmm.pageCount → l.pmm.bit p = false → s.bit p = false
  held : ∀ p ∈ l.held, s.bit p = false

variable {s : Pmm}

private theorem FromStart.step {l l' : Ledger} (inv : FromStart s l) (step : PmmStep l l') : FromStart s l' := by
  have sound := inv.sound.step step
  have pages := (step.pageCount inv.sound).trans inv.pageCount
  cases step with
  | alloc r legal ret =>
    obtain ⟨-, fits, window, rfl⟩ := Request.run_ok inv.sound.valid legal ret
    refine ⟨sound, pages, fun p managed free => ?_, fun p mem => ?_⟩
    · simp only [Pmm.allocated_pageCount, Pmm.allocated_bit, Bool.or_eq_false_iff] at managed free
      exact inv.clear p managed free.2
    · rcases mem with old | ⟨low, high⟩
      · exact inv.held p old
      · have free := window p low high
        rw [Pmm.isFree, Bool.not_eq_true'] at free
        exact inv.clear p (high.trans_le fits) free
  | free owned ret =>
    obtain ⟨-, -, -, rfl⟩ := (pmmFreePage_ok_iff inv.sound.valid _).mp ret
    refine ⟨sound, pages, fun p managed free => ?_, fun p mem => inv.held p mem.1⟩
    simp only [Pmm.released_pageCount, Pmm.released_bit, Bool.and_eq_false_iff, Bool.not_eq_false', decide_eq_true_eq]
      at managed free
    rcases free with rfl | old
    · exact inv.held _ owned
    · exact inv.clear p managed old

theorem exists_run_returning (valid : s.Valid) {page : Nat} (managed : page < s.pageCount)
    (free : s.bit page = false) (held : Set Nat) : ∃ l s', ReflTransGen PmmStep ⟨s, held⟩ l ∧
      pmmAllocPage l.pmm = .ok (s', page * 4096) := by
  -- by induction on the number of free pages: a request returns this page or uses up another one
  induction count : s.freePages generalizing s held with
  | zero =>
    rw [Pmm.freePages, card_eq_zero, filter_eq_empty_iff] at count
    exact absurd free (count (mem_range.mpr managed))
  | succ n ih =>
    rcases pmmAllocPage_spec valid with ⟨first, inside, clear, -, -, ret⟩ | ⟨full, -⟩
    · by_cases here : first = page
      · exact ⟨⟨s, held⟩, _, .refl, here ▸ ret⟩
      · have rest := Pmm.freePages_allocated inside clear
        obtain ⟨l, s', run, last⟩ := ih (s := s.allocated first 1) (valid.allocated inside)
          (by rwa [Pmm.allocated_pageCount]) (by rw [Pmm.allocated_bit, free, Bool.or_false, decide_eq_false_iff_not]; omega)
          (held ∪ pagesFrom (first * 4096) 1) (by omega)
        exact ⟨l, s', .head (.alloc .page ⟨Nat.le_refl 1, by decide⟩ ret) run, last⟩
    · rw [full page managed] at free
      cases free

theorem canReturn_iff (valid : s.Valid) (page : Nat) : CanReturn s page ↔ page < s.pageCount ∧ s.bit page = false := by
  constructor
  · rintro ⟨l, r, s', addr, run, legal, ret, low, high⟩
    have start : FromStart s ⟨s, ∅⟩ := ⟨.start valid, rfl, fun _ _ free => free, nofun⟩
    have inv := invariant_of_run (FromStart s) (fun _ _ inv step => inv.step step) run start
    obtain ⟨-, fits, window, -⟩ := Request.run_ok inv.sound.valid legal ret
    have free := window page low high
    rw [Pmm.isFree, Bool.not_eq_true'] at free
    have managed : page < l.pmm.pageCount := high.trans_le fits
    exact ⟨inv.pageCount ▸ managed, inv.clear page managed free⟩
  · rintro ⟨managed, free⟩
    obtain ⟨l, s', run, last⟩ := exists_run_returning valid managed free ∅
    refine ⟨l, .page, s', page * 4096, run, ⟨Nat.le_refl 1, by decide⟩, last, ?_⟩
    show page * 4096 / 4096 ≤ page ∧ page < page * 4096 / 4096 + 1
    omega

/-- The number of pages that `vmm_map_hhdm` maps, from physical address 0 on. -/
def hhdmPages (s : Pmm) : Nat := u64 (pmmGetMaxAddress s + pageSize - 1) / pageSize

theorem vmmMapHhdm_maps {v v' : Vmm} {shared : Fin 512 → Prop} {level : Nat → Nat} {space : AddressSpace}
    (wf : v.WellFormed shared level) (root : level space.pml4 = 4) (ret : vmmMapHhdm v space = .ok v') {page : Nat}
    (inside : page < hhdmPages v.pmm) : v'.frameAt space.pml4 (physToHhdm (page * 4096)) ≠ none ∧
      (hhdmPages v.pmm ≤ 2 ^ 36 → v'.frameAt space.pml4 (physToHhdm (page * 4096)) = some (page * 4096)) := by
  obtain ⟨level', -, maps⟩ := wf.mapPages_ok root (n := hhdmPages v.pmm) ret
  have place : pageOf (physToHhdm (page * 4096)) = pageOf (hhdmBase + 4096 * page) := by
    rw [physToHhdm, pageOf_u64, Nat.add_comm, Nat.mul_comm]
  rw [maps.here, place]
  constructor
  · intro absent
    rw [or_eq_none_iff, Vmm.writtenRange, map_eq_none_iff, Vmm.rangeMap_eq_none] at absent
    exact absent.1 page inside rfl
  · intro small
    rw [Vmm.writtenRange_eq (by decide) (by omega) (by decide), Vmm.rangeMap_of_distinct inside fun j within same => ?_]
    · rw [some_or, Nat.zero_add, Nat.mul_comm]
    · unfold pageOf hhdmBase at same
      omega

theorem lastVisited_bound (map : List EfiMemoryDescriptor) {addr : Nat} (bound : addr < 2 ^ 52) : lastVisited addr map < 2 ^ 52 := by
  induction map generalizing addr with
  | nil => exact bound
  | cons desc rest ih =>
    refine ih ?_
    have physical := desc.physical
    dsimp only
    split <;> omega

theorem Initialized.free_iff {map : List EfiMemoryDescriptor} {kernel : KernelImage}
    (initialized : Initialized map kernel s) (page : Nat) : page < s.pageCount ∧ s.bit page = false ↔
      Conventional map page ∧ page ∉ Rereserved s.bitmapAddr s.bitmapSize kernel := by
  have size := initialized.bitmapSize
  rw [← Bool.not_eq_true, initialized.bit, not_or, not_and, not_lt]
  constructor
  · rintro ⟨managed, outside, reserved⟩
    refine ⟨?_, outside⟩
    by_contra other
    have := reserved other
    omega
  · rintro ⟨conventional, outside⟩
    have last := conventional.le_maxPage
    exact ⟨by rw [initialized.pageCount]; omega, outside, fun other => absurd conventional other⟩

/-- After `pmm_init`, every page that can be handed out is in the direct map exactly when the
conventional pages that are left lie below the page cleared last. The direct map shows the pages of
its range. -/
theorem hhdm_covers_iff (map : List EfiMemoryDescriptor) (kernel : KernelImage) (s : Pmm)
    (returned : pmmInit map kernel = .ok s) :
    ((∀ page, CanReturn s page → page < hhdmPages s) ↔
      ∀ page, Conventional map page → page ∉ Rereserved s.bitmapAddr s.bitmapSize kernel →
        page * 4096 < lastVisited 0 map) ∧
    ∀ (v v' : Vmm) (shared : Fin 512 → Prop) (level : Nat → Nat) (space : AddressSpace), v.WellFormed shared level →
      level space.pml4 = 4 → v.pmm.maxAddress = s.maxAddress → vmmMapHhdm v space = .ok v' → ∀ page, page < hhdmPages s →
        v'.frameAt space.pml4 (physToHhdm (page * 4096)) ≠ none ∧
        (hhdmPages s ≤ 2 ^ 36 → v'.frameAt space.pml4 (physToHhdm (page * 4096)) = some (page * 4096)) := by
  have initialized := pmmInit_ok returned
  constructor
  · have pages : hhdmPages s = (lastVisited 0 map + 4095) / 4096 := by
      have bound : lastVisited 0 map < 2 ^ 52 := lastVisited_bound map (by decide)
      rw [← u64_of_lt (show lastVisited 0 map + 4095 < 2 ^ 64 by omega), ← initialized.maxAddress]
      rfl
    refine forall_congr' fun page => ?_
    rw [canReturn_iff initialized.valid, initialized.free_iff, pages, and_imp]
    refine forall_congr' fun _ => forall_congr' fun _ => ?_
    omega
  · intro v v' shared level space wf root same mapped page inside
    have count : hhdmPages v.pmm = hhdmPages s := by
      rw [hhdmPages, pmmGetMaxAddress, same]
      rfl
    rw [← count] at inside ⊢
    exact vmmMapHhdm_maps wf root mapped inside

theorem twoRanges_last_page : (pmmInit twoRanges kernelAtBase >>= fun s => Request.run s (.pages 4) >>= fun (low, _) =>
      Request.run low .page >>= fun (_, addr) => pure (hhdmPages s, addr)) = .ok (768, 768 * 4096) := by
  decide +kernel

/-- The four low pages are taken, and the next request returns the page above the direct map. -/
theorem twoRanges_last_page_unmapped : ∃ s, pmmInit twoRanges kernelAtBase = .ok s ∧ CanReturn s 768 ∧ hhdmPages s = 768 := by
  obtain ⟨s, ⟨low, addr₁⟩, started, taken, rest⟩ := of_bind₂ twoRanges_last_page
  obtain ⟨⟨s', addr⟩, last, seen⟩ := of_bind rest
  obtain ⟨pages, rfl⟩ := ok_inj seen
  refine ⟨s, started, ⟨_, .page, s', _, .single (.alloc (.pages 4) ⟨by decide, by decide⟩ taken), ⟨by decide, by decide⟩,
    last, ?_⟩, pages⟩
  exact ⟨by decide, by decide⟩

theorem five_pages_physical : 0x1000 + 5 * 4096 ≤ 2 ^ 52 := by
  decide

/-- Five low pages, and above them the memory of the kernel image alone. -/
def kernelOnTop : List EfiMemoryDescriptor := [⟨7, 0x1000, 5, five_pages_physical⟩, ⟨7, 0x200000, 0x40, by decide⟩]

/-- All pages that are left lie below the kernel image. -/
theorem kernelOnTop_covered : ∃ s, pmmInit kernelOnTop kernelAtBase = .ok s ∧
    ∀ page, CanReturn s page → page < hhdmPages s := by
  have run : (pmmInit kernelOnTop kernelAtBase).isOk = true := by decide +kernel
  obtain ⟨s, started⟩ := isOk_iff.mp run
  refine ⟨s, started, (hhdm_covers_iff kernelOnTop kernelAtBase s started).1.mpr fun page conventional outside => ?_⟩
  have last : lastVisited 0 kernelOnTop = 0x23F000 := by decide
  rw [last]
  obtain ⟨desc, member, -, first, inside⟩ := conventional
  rcases List.mem_pair.mp member with rfl | rfl
  · dsimp only at inside
    omega
  · -- the second range is the image, which is reserved
    have size : i32 (sub64 kernelAtBase.physEnd kernelAtBase.physStart) = ((0x40000 : Nat) : Int) := by decide +kernel
    refine absurd (Or.inr ?_) outside
    rw [size, regionVisited_iff (by decide) (by decide)]
    dsimp only at first inside
    constructor <;> simp only [kernelAtBase] <;> omega

end Xos.Memory
