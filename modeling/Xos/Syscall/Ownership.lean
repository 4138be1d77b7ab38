import Xos.Lib.Views
import Xos.Syscall.Alloc

/-!
# Who owns the frames behind user memory

The memory manager has one bit per page and no count of the mappings. User memory is the lower half; the upper half
shows every frame through the direct map.
-/
namespace Xos.Syscall

open Memory Scheduler Lib Word Relation Function Option

def userView (k : Kernel) (a : Nat × Nat) : Option Nat :=
  (k.processes a.1).bind fun process =>
    if a.2 < 2 ^ 35 then (k.vmm.frameAt process.addressSpace.pml4 (a.2 * 4096)).map (· / 4096) else none

structure Region where
  owner : Nat
  vaddr : Nat
  size : Nat
  shared : Bool
  deriving DecidableEq, Repr

def Region.keys (r : Region) : Set (Nat × Nat) :=
  {a | a.1 = r.owner ∧ r.vaddr / 4096 ≤ a.2 ∧ a.2 < r.vaddr / 4096 + pagesFor r.size}

def ownedKeys (regions : List Region) : Set (Nat × Nat) := {a | ∃ r ∈ regions, r.shared = false ∧ a ∈ r.keys}

structure Shows (k : Kernel) (regions : List Region) (views : Views (Nat × Nat) Nat) : Prop where
  map : views.map = userView k
  used : views.used = {page | k.vmm.pmm.bit page = true}
  owned : views.owned = ownedKeys regions

structure Spaced (k : Kernel) (level : Nat → Nat) : Prop where
  roots : ∀ p process, k.processes p = some process → level process.addressSpace.pml4 = 4
  distinct : ∀ p q process other, k.processes p = some process → k.processes q = some other →
    process.addressSpace.pml4 = other.addressSpace.pml4 → p = q
  heaps : ∀ p process, k.processes p = some process → process.heapNext % 4096 = 0 ∧ process.heapNext ≤ 2 ^ 47

/-- The regions that are not shared lie below the heap ends of their processes and do not overlap. -/
structure Placed (k : Kernel) (regions : List Region) : Prop where
  below : ∀ r ∈ regions, r.shared = false → r.vaddr % 4096 = 0 ∧ ¬(r.vaddr = 0 ∨ r.size = 0) ∧
    ∃ process, k.processes r.owner = some process ∧ r.vaddr + 4096 * pagesFor r.size ≤ process.heapNext
  disjoint : regions.Pairwise fun r s => r.shared = false → s.shared = false → Disjoint r.keys s.keys

structure Sound (k : Kernel) (regions : List Region) (level : Nat → Nat) (views : Views (Nat × Nat) Nat) : Prop where
  wf : k.vmm.WellFormed upperHalf level
  spaced : Spaced k level
  shown : Shows k regions views
  plain : ∀ a page, userView k a = some page → Vmm.Plain k.vmm level page
  placed : Placed k regions

theorem lower_page {g : Nat} (low : g < 2 ^ 35) : ¬upperHalf (pml4Index (g * 4096)) ∧ pageOf (g * 4096) = g := by
  constructor
  · rw [upperHalf, pml4Index, tableIndex_val]
    omega
  · unfold pageOf
    omega

theorem userView_eq_some {k : Kernel} {p g page : Nat} : userView k (p, g) = some page ↔
    ∃ process, k.processes p = some process ∧ g < 2 ^ 35 ∧
      k.vmm.frameAt process.addressSpace.pml4 (g * 4096) = some (page * 4096) := by
  unfold userView
  rw [bind_eq_some_iff]
  refine exists_congr fun process => and_congr_right fun _ => ?_
  split
  · next low =>
    rw [map_eq_some_iff]
    constructor
    · rintro ⟨frame, mapped, rfl⟩
      rw [Vmm.frameAt_aligned mapped]
      exact ⟨low, mapped⟩
    · rintro ⟨-, mapped⟩
      exact ⟨page * 4096, mapped, Nat.mul_div_cancel page (by decide)⟩
  · next high => exact iff_of_false nofun fun ⟨low, _⟩ => high low

section Steps

variable {k : Kernel} {regions : List Region} {level : Nat → Nat} {views : Views (Nat × Nat) Nat}

variable {f n p : Nat} {a : Nat × Nat} {k' : Kernel} {level' : Nat → Nat} {process : Process} {r : Region}

section

variable (sound : Sound k regions level views)
include sound

theorem Sound.allocated (fits : f + n ≤ k.vmm.pmm.pageCount) :
    Sound (withPmm k (k.vmm.pmm.allocated f n)) regions level
      (views.use {page | f ≤ page ∧ page < f + n}) := by
  refine ⟨sound.wf.allocated f n fits, ⟨sound.spaced.roots, sound.spaced.distinct, sound.spaced.heaps⟩,
    ⟨sound.shown.map, ?_, sound.shown.owned⟩, fun a page seen => ?_, ⟨sound.placed.below, sound.placed.disjoint⟩⟩
  · ext page
    show page ∈ views.used ∪ _ ↔ (k.vmm.pmm.allocated f n).bit page = true
    rw [Set.mem_union, sound.shown.used, Pmm.allocated_bit, Bool.or_eq_true, decide_eq_true_eq, or_comm]
    rfl
  · exact (sound.plain a page seen).allocated f n

theorem Sound.free_page {page : Nat} (managed : page < k.vmm.pmm.pageCount)
    (clear : k.vmm.pmm.bit page = false) : Vmm.Plain k.vmm level page ∧ ∀ a, userView k a ≠ some page := by
  refine ⟨sound.wf.plain_of_clear managed clear, fun a seen => ?_⟩
  have used := views.live a page (by rw [sound.shown.map, seen])
  rw [sound.shown.used] at used
  exact absurd (clear.symm.trans used) (by decide)

/-- What a process sees of `n` pages from `f` on that are mapped from the page `first` on. -/
def seenFrom (p first f n : Nat) (a : Nat × Nat) : Option Nat :=
  if a.1 = p ∧ first ≤ a.2 ∧ a.2 < first + n then some (f + (a.2 - first)) else none

omit sound in
theorem seenFrom_eq_some {first page : Nat} (seen : seenFrom p first f n a = some page) :
    a.1 = p ∧ first ≤ a.2 ∧ a.2 < first + n ∧ page = f + (a.2 - first) := by
  unfold seenFrom at seen
  split at seen
  · next inside => exact ⟨inside.1, inside.2.1, inside.2.2, (some.inj seen).symm⟩
  · cases seen

omit sound in
theorem writtenRange_lower {heapNext g : Nat} (aligned : heapNext % 4096 = 0) (small : n < 2 ^ 32)
    (room : heapNext + 4096 * n ≤ 2 ^ 47) (bound : f + n ≤ 2 ^ 40) (low : g < 2 ^ 35) :
      Vmm.writtenRange heapNext (f * 4096) userFlags n g =
      if heapNext / 4096 ≤ g ∧ g < heapNext / 4096 + n then some ((f + (g - heapNext / 4096)) * 4096) else none := by
  rw [Vmm.writtenRange_eq (by omega) (by omega) (by decide)]
  split
  · next inside =>
    have page : g = pageOf (heapNext + 4096 * (g - heapNext / 4096)) := by
      unfold pageOf
      omega
    rw [page, Vmm.rangeMap_of_distinct (i := g - heapNext / 4096) (by omega) fun j within same => by
      unfold pageOf at same
      omega, ← page]
    exact congrArg some (by omega)
  · next outside =>
    rw [Vmm.rangeMap_eq_none]
    intro i inside same
    unfold pageOf at same
    omega

omit sound in
theorem userView_mapped (spaced : Spaced k level) (record : k.processes p = some process)
    (maps : Vmm.Maps upperHalf process.addressSpace.pml4 (Vmm.writtenRange process.heapNext (f * 4096) userFlags n)
      k.vmm k'.vmm level level')
    (spaces : ∀ q, (k'.processes q).map Process.addressSpace = (k.processes q).map Process.addressSpace)
    (small : n < 2 ^ 32) (room : process.heapNext + 4096 * n ≤ 2 ^ 47) (bound : f + n ≤ 2 ^ 40) :
    userView k' = fun a => (seenFrom p (process.heapNext / 4096) f n a).or (userView k a) := by
  have spaced' (j : Kernel) (a : Nat × Nat) : userView j a = ((j.processes a.1).map Process.addressSpace).bind fun space =>
      if a.2 < 2 ^ 35 then (j.vmm.frameAt space.pml4 (a.2 * 4096)).map (· / 4096) else none := by
    rw [bind_map]
    rfl
  funext ⟨q, g⟩
  rw [spaced', spaced' k, spaces]
  cases owner : k.processes q with
  | none =>
    have other : q ≠ p := by
      rintro rfl
      rw [record] at owner
      cases owner
    rw [map_none, bind_none, bind_none, seenFrom, if_neg fun inside => other inside.1]
    rfl
  | some other =>
    rw [map_some, bind_some, bind_some]
    split
    · next low =>
      obtain ⟨lower, page⟩ := lower_page low
      by_cases same : q = p
      · subst same
        obtain rfl := mem_unique owner record
        rw [maps.here, page, writtenRange_lower (spaced.heaps q other record).1 small room bound low, seenFrom]
        by_cases inside : other.heapNext / 4096 ≤ g ∧ g < other.heapNext / 4096 + n
        · rw [if_pos inside, if_pos ⟨rfl, inside⟩, some_or, some_or, map_some,
            Nat.mul_div_cancel _ (by decide)]
        · rw [if_neg inside, if_neg fun both => inside both.2, none_or, none_or]
      · have differ : other.addressSpace.pml4 ≠ process.addressSpace.pml4 :=
          fun root => same (spaced.distinct q p other process owner record root)
        rw [maps.others _ _ (spaced.roots q other owner) differ (Or.inr lower), seenFrom,
          if_neg fun inside => same inside.1, none_or]
    · next high =>
      rw [seenFrom, if_neg, none_or]
      rintro ⟨-, -, inside⟩
      omega

/-- What `mapAtHeapNext` does when the end of the heap stays in the lower half. -/
structure MapsAt (k k' : Kernel) (level level' : Nat → Nat) (p f n : Nat) (process : Process) : Prop where
  keeps : Vmm.Keeps k.vmm k'.vmm level level'
  processes : k'.processes = update k.processes p (some { process with heapNext := process.heapNext + 4096 * n })
  tasks : k'.tasks = k.tasks
  seen : userView k' = fun a => (seenFrom p (process.heapNext / 4096) f n a).or (userView k a)

omit sound in
theorem mapAtHeapNext_grows {phys vaddr : Nat} (record : k.processes p = some process)
    (ret : mapAtHeapNext k p phys n = .ok (k', vaddr)) (wide : process.heapNext ≤ 2 ^ 48) (small : n < 2 ^ 32) :
    vaddr = process.heapNext ∧ ∃ vmm, vmmMapPages k.vmm process.addressSpace process.heapNext phys n userFlags = .ok vmm ∧
      k' = { k with vmm := vmm }.setProcess p { process with heapNext := process.heapNext + 4096 * n } := by
  have sum : u64 (process.heapNext + u64 (n * pageSize)) = process.heapNext + 4096 * n := by
    have page : pageSize = 4096 := rfl
    rw [page, u64_of_lt (show n * 4096 < 2 ^ 64 by omega), u64_of_lt (by omega), Nat.mul_comm]
  obtain ⟨rfl, vmm, mapped, rfl⟩ := mapAtHeapNext_ok record ret
  rw [sum]
  exact ⟨rfl, vmm, mapped, rfl⟩

theorem Sound.mapsAt {vaddr : Nat}
    (record : k.processes p = some process) (ret : mapAtHeapNext k p (f * 4096) n = .ok (k', vaddr))
    (small : n < 2 ^ 32) (bound : f + n ≤ 2 ^ 40) (room : process.heapNext + 4096 * n ≤ 2 ^ 47) :
    ∃ level', k'.vmm.WellFormed upperHalf level' ∧ MapsAt k k' level level' p f n process := by
  obtain ⟨-, vmm, mapped, rfl⟩ := mapAtHeapNext_grows record ret (by omega) small
  obtain ⟨level', wf, maps⟩ := sound.wf.mapPages_ok (sound.spaced.roots p process record) mapped
  refine ⟨level', wf, maps.toKeeps, rfl, rfl, ?_⟩
  refine userView_mapped sound.spaced record maps (fun q => ?_) small room bound
  by_cases same : q = p
  · subst same
    simp [Kernel.setProcess, record]
  · simp [Kernel.setProcess, update_of_ne same]

omit sound in
theorem MapsAt.record {q : Nat} {other : Process} (step : MapsAt k k' level level' p f n process)
    (record : k.processes p = some process)
    (found : k'.processes q = some other) : ∃ old, k.processes q = some old ∧ other.addressSpace = old.addressSpace ∧
      other.heapNext = if q = p then old.heapNext + 4096 * n else old.heapNext := by
  rw [step.processes] at found
  by_cases same : q = p
  · subst same
    rw [update_self] at found
    obtain rfl := some.inj found
    exact ⟨process, record, rfl, (if_pos rfl).symm⟩
  · rw [update_of_ne same] at found
    exact ⟨other, found, rfl, (if_neg same).symm⟩

theorem Sound.seenFrom_owned (record : k.processes p = some process) (owned : a ∈ ownedKeys regions) :
    seenFrom p (process.heapNext / 4096) f n a = none := by
  obtain ⟨r, mem, unshared, owner, -, last⟩ := owned
  obtain ⟨-, -, other, found, below⟩ := sound.placed.below r mem unshared
  refine if_neg ?_
  rintro ⟨rfl, first, -⟩
  rw [← owner, record] at found
  obtain rfl := some.inj found
  omega

theorem Sound.map (record : k.processes p = some process) (wf : k'.vmm.WellFormed upperHalf level')
    (step : MapsAt k k' level level' p f n process) (room : process.heapNext + 4096 * n ≤ 2 ^ 47)
    (pages : ∀ page, f ≤ page → page < f + n → Vmm.Plain k.vmm level page ∧ k.vmm.pmm.bit page = true ∧
      ∀ a, a ∈ ownedKeys regions → userView k a ≠ some page) :
    ∃ views', Sound k' regions level' views' := by
  have bits (page : Nat) (used : k.vmm.pmm.bit page = true) := step.keeps.bits page used
  have apart (a : Nat × Nat) (page : Nat) (seen : seenFrom p (process.heapNext / 4096) f n a = some page) :
      a ∉ views.owned ∧ page ∈ (views.use {q | k'.vmm.pmm.bit q = true}).used ∧ ∀ b, b ∈ views.owned → views.map b ≠ some page := by
    obtain ⟨-, first, inside, rfl⟩ := seenFrom_eq_some seen
    obtain ⟨-, used, unseen⟩ := pages (f + (a.2 - process.heapNext / 4096)) (by omega) (by omega)
    rw [sound.shown.owned, sound.shown.map]
    refine ⟨fun owned => ?_, Or.inr (bits _ used), unseen⟩
    rw [sound.seenFrom_owned record owned] at seen
    cases seen
  refine ⟨(views.use {q | k'.vmm.pmm.bit q = true}).bind _ apart, wf, ⟨fun q other found => ?_, fun q q' other other' found found' root => ?_,
    fun q other found => ?_⟩, ⟨?_, ?_, sound.shown.owned⟩, fun a page seen => ?_, ⟨fun r mem unshared => ?_, sound.placed.disjoint⟩⟩
  · obtain ⟨old, found, space, -⟩ := step.record record found
    have top := sound.spaced.roots q old found
    rw [space, step.keeps.levels _ (by omega), top]
  · obtain ⟨old, found, space, -⟩ := step.record record found
    obtain ⟨old', found', space', -⟩ := step.record record found'
    exact sound.spaced.distinct q q' old old' found found' (by rw [← space, ← space', root])
  · obtain ⟨old, found, -, next⟩ := step.record record found
    obtain ⟨aligned, low⟩ := sound.spaced.heaps q old found
    rw [next]
    split
    · next same =>
      subst same
      obtain rfl := mem_unique found record
      omega
    · exact ⟨aligned, low⟩
  · rw [step.seen, ← sound.shown.map]
    rfl
  · ext page
    show page ∈ views.used ∪ _ ↔ _
    rw [sound.shown.used, Set.mem_union]
    exact or_iff_right_of_imp (bits page)
  · rw [step.seen] at seen
    rcases or_eq_some_iff.mp seen with new | ⟨-, old⟩
    · obtain ⟨-, first, inside, rfl⟩ := seenFrom_eq_some new
      obtain ⟨plain, used, -⟩ := pages (f + (a.2 - process.heapNext / 4096)) (by omega) (by omega)
      exact plain.keep sound.wf.valid used step.keeps
    · have used := views.live a page (by rw [sound.shown.map, old])
      rw [sound.shown.used] at used
      exact (sound.plain a page old).keep sound.wf.valid used step.keeps
  · obtain ⟨aligned, nonzero, old, found, below⟩ := sound.placed.below r mem unshared
    refine ⟨aligned, nonzero, ?_⟩
    rw [step.processes]
    by_cases same : r.owner = p
    · rw [same, update_self]
      rw [same, record] at found
      obtain rfl := some.inj found
      exact ⟨_, rfl, by dsimp only; omega⟩
    · rw [update_of_ne same]
      exact ⟨old, found, below⟩

omit sound in
theorem ownedKeys_cons (r : Region) : ownedKeys (r :: regions) = ownedKeys regions ∪ {a | r.shared = false ∧ a ∈ r.keys} := by
  ext a
  simp only [ownedKeys, List.mem_cons, exists_eq_or_imp, Set.mem_union, Set.mem_ofPred_eq]
  exact or_comm

theorem Sound.consShared (shared : r.shared = true) : Sound k (r :: regions) level views := by
  refine ⟨sound.wf, sound.spaced, ⟨sound.shown.map, sound.shown.used, ?_⟩, sound.plain, ⟨fun s mem unshared => ?_, ?_⟩⟩
  · rw [sound.shown.owned, ownedKeys_cons, shared]
    simp
  · rcases List.mem_cons.mp mem with rfl | old
    · rw [shared] at unshared
      cases unshared
    · exact sound.placed.below s old unshared
  · refine List.pairwise_cons.mpr ⟨fun s _ unshared => ?_, sound.placed.disjoint⟩
    rw [shared] at unshared
    cases unshared

theorem Sound.consOwned (unshared : r.shared = false)
    (each : ∀ a, a ∈ r.keys → ∃ page, userView k a = some page ∧ ∀ b, userView k b = some page → b = a)
    (aligned : r.vaddr % 4096 = 0) (nonzero : ¬(r.vaddr = 0 ∨ r.size = 0)) (record : k.processes r.owner = some process)
    (below : r.vaddr + 4096 * pagesFor r.size ≤ process.heapNext)
      (disjoint : ∀ s ∈ regions, s.shared = false → Disjoint r.keys s.keys) :
    ∃ views', Sound k (r :: regions) level views' := by
  refine ⟨views.own r.keys (sound.shown.map ▸ each), sound.wf, sound.spaced, ⟨sound.shown.map, sound.shown.used, ?_⟩,
    sound.plain, ⟨fun s mem unshared => ?_, ?_⟩⟩
  · rw [ownedKeys_cons, ← sound.shown.owned]
    simp only [unshared, true_and]
    rfl
  · rcases List.mem_cons.mp mem with rfl | old
    · exact ⟨aligned, nonzero, process, record, below⟩
    · exact sound.placed.below s old unshared
  · exact List.pairwise_cons.mpr ⟨fun s mem _ other => disjoint s mem other, sound.placed.disjoint⟩

omit sound in
theorem Placed.disjoint_heapNext (placed : Placed k regions)
    (record : k.processes p = some process) (owner : r.owner = p) (place : r.vaddr = process.heapNext) :
    ∀ s ∈ regions, s.shared = false → Disjoint r.keys s.keys := by
  intro s mem unshared
  obtain ⟨-, -, other, found, below⟩ := placed.below s mem unshared
  refine Set.disjoint_left.mpr fun a ⟨left, first, _⟩ ⟨right, _, last⟩ => ?_
  obtain rfl : process = other := by
    rw [← right, left, owner, record] at found
    exact some.inj found
  omega

def HeapsLow (k : Kernel) : Prop := ∀ p process, k.processes p = some process → process.heapNext ≤ 2 ^ 47

theorem Sound.taken {pmm : Pmm} {phys : Nat} (small : n < 2 ^ 32)
    (taken : pmmAllocPages k.vmm.pmm n = .ok (pmm, phys)) :
    ∃ f, phys = f * 4096 ∧ f + n ≤ k.vmm.pmm.pageCount ∧ pmm = k.vmm.pmm.allocated f n ∧
      ∀ page, f ≤ page → page < f + n → Vmm.Plain k.vmm level page ∧ ∀ a, userView k a ≠ some page := by
  obtain ⟨f, fits, window, rfl, rfl⟩ := pmmAllocPages_ok sound.wf.valid taken
  rw [u32_of_lt small] at fits window ⊢
  refine ⟨f, rfl, fits, rfl, fun page low high => ?_⟩
  have free := window page low high
  rw [Pmm.isFree, Bool.not_eq_true'] at free
  exact sound.free_page (by omega) free

theorem Sound.sysAlloc {size vaddr : Nat}
    (caller : Caller k p process) (ret : sysAlloc k size = .ok (k', vaddr)) (fitting : size + 4095 < 2 ^ 64)
    (small : (size + 4095) / 4096 < 2 ^ 32) (low : HeapsLow k') :
    ∃ level' views', Sound k' (if vaddr = 0 then regions else ⟨p, vaddr, size, false⟩ :: regions) level' views' := by
  have pages : pagesFor size = (size + 4095) / 4096 := by
    rw [← u64_of_lt fitting]
    rfl
  rw [caller.sysAlloc_eq] at ret
  split at ret
  · cases ret
    exact ⟨level, views, sound⟩
  next pos =>
  obtain ⟨⟨pmm, phys⟩, taken, ret⟩ := Outcome.of_bind ret
  obtain ⟨f, rfl, fits, rfl, plain⟩ := sound.taken (by omega) taken
  have sound₁ := sound.allocated fits
  split at ret
  · cases ret
    exact ⟨level, _, sound₁⟩
  have bound : f + pagesFor size ≤ 2 ^ 40 := by
    have last := (plain (f + pagesFor size - 1) (by omega) (by omega)).1.small
    omega
  have heap := (sound.spaced.heaps p process caller.record).2
  obtain ⟨rfl, vmm, -, res⟩ := mapAtHeapNext_grows (caller.retake _).record ret (by omega) (by omega)
  have room : process.heapNext + 4096 * pagesFor size ≤ 2 ^ 47 := low p _ (by rw [res]; exact update_self ..)
  obtain ⟨level', wf, step⟩ := sound₁.mapsAt (caller.retake _).record ret (by omega) bound room
  have unseen (page : Nat) (first : f ≤ page) (inside : page < f + pagesFor size) := (plain page first inside).2
  obtain ⟨views', sound'⟩ := sound₁.map (caller.retake _).record wf step room fun page first inside => by
    refine ⟨(plain page first inside).1.allocated f _, ?_, fun a _ => unseen page first inside a⟩
    show (k.vmm.pmm.allocated f (pagesFor size)).bit page = true
    rw [Pmm.allocated_bit, decide_eq_true ⟨first, inside⟩, Bool.true_or]
  refine ⟨level', ?_⟩
  split
  · exact ⟨views', sound'⟩
  next region =>
  have record' : k'.processes p = some { process with heapNext := process.heapNext + 4096 * pagesFor size } := by
    rw [step.processes, update_self]
  refine sound'.consOwned rfl (fun a here => ?_) (sound.spaced.heaps p process caller.record).1 (not_or.mpr ⟨region, pos⟩)
    record' (Nat.le_refl _) (sound.placed.disjoint_heapNext caller.record rfl rfl)
  -- the pages were free, so what is seen of them is the new mapping
  obtain ⟨owner, first, inside⟩ := here
  have seen : seenFrom p (process.heapNext / 4096) f (pagesFor size) a = some (f + (a.2 - process.heapNext / 4096)) :=
    if_pos ⟨owner, first, inside⟩
  rw [step.seen]
  refine ⟨_, by dsimp only; rw [seen, some_or], fun b there => ?_⟩
  rcases or_eq_some_iff.mp there with new | ⟨-, old⟩
  · obtain ⟨owner', first', -, same⟩ := seenFrom_eq_some new
    exact Prod.ext (owner'.trans owner.symm) (by dsimp only at first; omega)
  · exact absurd old (unseen _ (by omega) (by dsimp only at inside; omega) b)

end

theorem Region.mem_keys : a ∈ r.keys ↔ ∃ i, i < pagesFor r.size ∧ a = (r.owner, r.vaddr / 4096 + i) := by
  constructor
  · rintro ⟨owner, first, last⟩
    exact ⟨a.2 - r.vaddr / 4096, by omega, Prod.ext owner (by dsimp only; omega)⟩
  · rintro ⟨i, inside, rfl⟩
    exact ⟨rfl, Nat.le_add_right _ _, by dsimp only; omega⟩

section Owned

variable (sound : Sound k regions level views) (mem : r ∈ regions) (unshared : r.shared = false)
include sound mem unshared

theorem Sound.owned_page (here : a ∈ r.keys) : ∃ page, userView k a = some page ∧
    Vmm.Plain k.vmm level page ∧ k.vmm.pmm.bit page = true ∧
      ∀ b, userView k b = some page → b = a := by
  have owned : a ∈ views.owned := by
    rw [sound.shown.owned]
    exact ⟨r, mem, unshared, here⟩
  obtain ⟨page, seen, alone⟩ := views.sole a owned
  have used := views.live a page seen
  rw [sound.shown.used] at used
  rw [sound.shown.map] at seen alone
  exact ⟨page, seen, sound.plain a page seen, used, alone⟩

section

variable (record : k.processes r.owner = some process)
include record

theorem Sound.userView_key {i page : Nat} (inside : i < pagesFor r.size) : userView k (r.owner, r.vaddr / 4096 + i) = some page ↔
      k.vmm.frameAt process.addressSpace.pml4 (r.vaddr + 4096 * i) = some (page * 4096) := by
  obtain ⟨aligned, -, process', record', below⟩ := sound.placed.below r mem unshared
  obtain rfl := mem_unique record record'
  have low := (sound.spaced.heaps _ _ record).2
  have place : (r.vaddr / 4096 + i) * 4096 = r.vaddr + 4096 * i := by omega
  rw [userView_eq_some, place]
  constructor
  · rintro ⟨_, found, -, mapped⟩
    obtain rfl := mem_unique record found
    exact mapped
  · exact fun mapped => ⟨process, record, by omega, mapped⟩

theorem Sound.frees : k.vmm.Frees process.addressSpace.pml4 r.vaddr (pagesFor r.size) := by
  -- an entry that the loop finds is that of the page seen there
  have found {i entry : Nat} (inside : i < pagesFor r.size)
      (leaf : k.vmm.leafAt process.addressSpace.pml4 (r.vaddr + 4096 * i) = some entry) :
      entryFrame entry ≠ none ∧ userView k (r.owner, r.vaddr / 4096 + i) = some (entryPage entry) := by
    obtain ⟨page, seen, -⟩ := sound.owned_page mem unshared (Region.mem_keys.mpr ⟨i, inside, rfl⟩)
    have mapped := (sound.userView_key mem unshared record inside).mp seen
    rw [Vmm.frameAt_eq, leaf, bind_some] at mapped
    obtain ⟨present, rfl⟩ := entryFrame_eq_some.mp mapped
    exact ⟨present, seen⟩
  intro i entry inside leaf
  obtain ⟨present, seen⟩ := found inside leaf
  obtain ⟨page, seen', plain, used, alone⟩ := sound.owned_page mem unshared (Region.mem_keys.mpr ⟨i, inside, rfl⟩)
  obtain rfl := mem_unique seen seen'
  refine ⟨present, plain.managed, used, fun j other within leaf' same => ?_⟩
  have place := alone _ (same ▸ (found within leaf').2)
  have key := (Prod.mk.inj place).2
  omega

/-- What is seen once a range of the lower half has been unmapped. -/
theorem Sound.userView_unmapped {vmm : Vmm}
    (ret : vmmUnmapAndFreePages k.vmm process.addressSpace r.vaddr (pagesFor r.size) = .ok vmm) (a : Nat × Nat) :
    (a ∈ r.keys → userView { k with vmm := vmm } a = none) ∧ (a ∉ r.keys → userView { k with vmm := vmm } a = userView k a) := by
  obtain ⟨aligned, -, process', record', below⟩ := sound.placed.below r mem unshared
  obtain rfl := mem_unique record record'
  have low := (sound.spaced.heaps _ _ record).2
  have root := sound.spaced.roots _ _ record
  have view : userView { k with vmm := vmm } a = (k.processes a.1).bind fun other =>
      if a.2 < 2 ^ 35 then (vmm.frameAt other.addressSpace.pml4 (a.2 * 4096)).map (· / 4096) else none := rfl
  constructor
  · rintro ⟨owner, first, last⟩
    rw [view, owner, record, bind_some, sound.wf.tabled.unmapPages_self root ret, if_pos (by omega), if_pos]
    · rfl
    · exact ⟨a.2 - r.vaddr / 4096, by omega, by unfold pageOf; omega⟩
  · intro outside
    rw [view, userView]
    refine bind_congr fun other found => ?_
    split
    · next within =>
      by_cases same : a.1 = r.owner
      · rw [same, record] at found
        obtain rfl := some.inj found
        rw [sound.wf.tabled.unmapPages_self root ret, if_neg]
        rintro ⟨i, inside, page⟩
        refine outside ⟨same, ?_⟩
        unfold pageOf at page
        omega
      · have differ : other.addressSpace.pml4 ≠ process.addressSpace.pml4 :=
          fun meet => same (sound.spaced.distinct _ _ _ _ found record meet)
        rw [sound.wf.tabled.unmapPages_other root ret (sound.spaced.roots _ _ found) differ (lower_page within).1]
    · rfl

end

end Owned

theorem Placed.ownedKeys_erase (placed : Placed k regions) (mem : r ∈ regions)
    (unshared : r.shared = false) : ownedKeys (regions.erase r) = ownedKeys regions \ r.keys := by
  have perm := List.perm_cons_erase mem
  have apart := (List.pairwise_cons.mp ((perm.pairwise_iff fun {s t} disjoint first second =>
    (disjoint second first).symm).mp placed.disjoint)).1
  have whole : ownedKeys regions = ownedKeys (r :: regions.erase r) := by
    ext a
    simp only [ownedKeys, perm.mem_iff]
  rw [whole, ownedKeys_cons]
  ext a
  constructor
  · rintro ⟨s, here, other, key⟩
    exact ⟨Or.inl ⟨s, here, other, key⟩, fun both => Set.disjoint_left.mp (apart s here unshared other) both key⟩
  · rintro ⟨old | ⟨-, key⟩, outside⟩
    · exact old
    · exact absurd key outside

theorem Sound.sysFree (sound : Sound k regions level views) (mem : r ∈ regions) (unshared : r.shared = false)
    (caller : Caller k r.owner process) : ∃ k', sysFree k r.vaddr r.size = .ok k' ∧
      ∃ views', Sound k' (regions.erase r) level views' := by
  have root := sound.spaced.roots _ _ caller.record
  have nonzero := (sound.placed.below r mem unshared).2.1
  obtain ⟨vmm, ret, bits, -⟩ := Vmm.exact_of_frees sound.wf.tabled root (sound.frees mem unshared caller.record)
  obtain ⟨tabled, pageCount, -⟩ := sound.wf.tabled.unmapPages_ok root ret
  have unmapped := sound.userView_unmapped mem unshared caller.record ret
  have subset : r.keys ⊆ views.owned := by
    rw [sound.shown.owned]
    exact fun a key => ⟨r, mem, unshared, key⟩
  -- the pages that become free are those that the region showed
  have freed (page : Nat) : vmm.pmm.bit page = true ↔ k.vmm.pmm.bit page = true ∧ ∀ a, a ∈ r.keys → userView k a ≠ some page := by
    rw [bits]
    refine and_congr_right fun _ => ⟨fun apart a key seen => ?_, fun apart i inside mapped => ?_⟩
    · obtain ⟨i, inside, rfl⟩ := Region.mem_keys.mp key
      exact apart i inside ((sound.userView_key mem unshared caller.record inside).mp seen)
    · exact apart _ (Region.mem_keys.mpr ⟨i, inside, rfl⟩)
        ((sound.userView_key mem unshared caller.record inside).mpr mapped)
  refine ⟨{ k with vmm := vmm }, ?_, views.release r.keys subset, ?_⟩
  · rw [caller.sysFree_eq, if_neg nonzero, ret, Outcome.ok_bind]
  refine ⟨⟨tabled.forest, tabled.valid, sound.wf.null, sound.wf.frames, fun page managed clear => ?_⟩,
    ⟨sound.spaced.roots, sound.spaced.distinct, sound.spaced.heaps⟩, ⟨?_, ?_, ?_⟩, fun a page seen => ?_,
    ⟨fun s here => sound.placed.below s (List.mem_of_mem_erase here), sound.placed.disjoint.sublist List.erase_sublist⟩⟩
  · -- a page that is free now was free before, or the region showed it
    rw [pageCount] at managed
    by_cases before : k.vmm.pmm.bit page = true
    · have shown : ¬∀ a, a ∈ r.keys → userView k a ≠ some page := fun apart => by
        rw [(freed page).mpr ⟨before, apart⟩] at clear
        cases clear
      simp only [not_forall, not_not] at shown
      obtain ⟨a, key, seen⟩ := shown
      have plain := sound.plain a page seen
      exact ⟨plain.nonzero, plain.small, plain.nonnull, plain.outside⟩
    · exact sound.wf.fresh page managed (by simpa using before)
  · funext a
    by_cases key : a ∈ r.keys
    · rw [views.release_map_of_mem key, (unmapped a).1 key]
    · rw [views.release_map_of_notMem key, (unmapped a).2 key, sound.shown.map]
  · ext page
    show page ∈ views.used \ {page | ∃ a, a ∈ r.keys ∧ views.map a = some page} ↔ vmm.pmm.bit page = true
    rw [freed, sound.shown.used, sound.shown.map]
    simp
  · rw [sound.placed.ownedKeys_erase mem unshared, ← sound.shown.owned]
    rfl
  · have outside : a ∉ r.keys := fun key => by
      rw [(unmapped a).1 key] at seen
      cases seen
    rw [(unmapped a).2 outside] at seen
    have plain := sound.plain a page seen
    exact ⟨pageCount ▸ plain.managed, plain.nonzero, plain.small, plain.nonnull, plain.outside⟩

end Steps

end Xos.Syscall
