import Xos.Syscall.Ownership

/-!
# Shared regions, and runs of the memory calls

`SYS_ALLOC_SHARED` maps the same pages into two processes and stores the second address through a
pointer of the caller. A store into user memory changes no table, as user memory shows no table.
-/
namespace Xos.Syscall

open Memory Scheduler Lib Word Relation Outcome Function Option

variable {k k' : Kernel} {regions : List Region} {level : Nat → Nat} {views : Views (Nat × Nat) Nat} {p : Nat}
  {process : Process}

structure SameTables (level : Nat → Nat) (v v' : Vmm) : Prop where
  pmm : v'.pmm = v.pmm
  tables : ∀ t i, level t ≠ 0 → v'.tables t i = v.tables t i

theorem SameTables.frameAt {v v' : Vmm} (same : SameTables level v v') (wf : v.WellFormed upperHalf level) {r : Nat}
    (root : level r = 4) (virt : Nat) : v'.frameAt r virt = v.frameAt r virt :=
  wf.forest.lookup_congr same.tables (by rw [length_pagePath]; omega)

variable {virt : Nat}

theorem userView_of_frameAt (record : k.processes p = some process) {frame : Nat} (low : virt < 2 ^ 47)
    (mapped : k.vmm.frameAt process.addressSpace.pml4 virt = some frame) : userView k (p, virt / 4096) = some (frame / 4096) := by
  apply userView_eq_some.mpr
  refine ⟨process, record, by omega, ?_⟩
  rw [Vmm.frameAt_aligned mapped, ← mapped]
  exact Vmm.frameAt_congr (by unfold pageOf; omega)

section

variable (sound : Sound k regions level views) (record : k.processes p = some process)
include sound record

theorem Sound.storeByte {v v' : Vmm} {byte : Nat} (low : virt < 2 ^ 47) (same : SameTables level k.vmm v)
    (ret : storeByte process.addressSpace virt byte v = .ok v') : SameTables level k.vmm v' := by
  unfold Syscall.storeByte at ret
  rw [same.frameAt sound.wf (sound.spaced.roots p process record)] at ret
  split at ret
  · cases ret
  next frame mapped =>
  cases ret
  have seen := userView_of_frameAt record low mapped
  have outside := (sound.plain _ _ seen).outside
  rw [Vmm.frameAt_aligned mapped] at outside
  refine ⟨same.pmm, fun t i known => ?_⟩
  rw [Vmm.setEntry_of_ne _ _ fun here => ?_, same.tables t i known]
  rw [(Prod.mk.inj here).1] at known
  exact known outside

theorem Sound.storeUlong {v : Vmm} {value : Nat} (low : virt + 8 ≤ 2 ^ 47)
    (ret : storeUlong k.vmm process.addressSpace virt value = .ok v) :
    Sound { k with vmm := v } regions level views := by
  have same : SameTables level k.vmm v := by
    refine Outcome.forRange_kept (SameTables level k.vmm) (fun i s s' _ inside same step => ?_) ret ⟨rfl, fun _ _ _ => rfl⟩
    rw [u64_of_lt (by omega)] at step
    exact sound.storeByte record (by omega) same step
  have view : userView { k with vmm := v } = userView k := by
    funext a
    refine bind_congr fun other found => ?_
    rw [same.frameAt sound.wf (sound.spaced.roots _ _ found)]
  refine ⟨⟨sound.wf.forest.congr fun t i inner => same.tables t i (by omega), same.pmm ▸ sound.wf.valid, sound.wf.null,
    sound.wf.frames, same.pmm ▸ sound.wf.fresh⟩, ⟨sound.spaced.roots, sound.spaced.distinct, sound.spaced.heaps⟩,
    ⟨view ▸ sound.shown.map, same.pmm ▸ sound.shown.used, sound.shown.owned⟩, fun a page seen => ?_,
    ⟨sound.placed.below, sound.placed.disjoint⟩⟩
  rw [view] at seen
  have plain := sound.plain a page seen
  exact ⟨same.pmm ▸ plain.managed, plain.nonzero, plain.small, plain.nonnull, plain.outside⟩

end

variable {size handle : Nat} {shared : Option SharedViews}

/-- A call that returns has taken no pages, or taken them for nothing, or mapped them twice. -/
theorem Caller.allocShared_ok (caller : Caller k p process)
    (ret : allocShared k size handle = .ok (k', shared)) :
    (shared = none ∧ (k' = k ∨ ∃ pmm, pmmAllocPages k.vmm.pmm (pagesFor size) = .ok (pmm, 0) ∧ k' = withPmm k pmm)) ∨
    ∃ pmm phys mid client vaddr clientVaddr, size ≠ 0 ∧ pmmAllocPages k.vmm.pmm (pagesFor size) = .ok (pmm, phys) ∧
      mapAtHeapNext (withPmm k pmm) p phys (pagesFor size) = .ok (mid, vaddr) ∧
      mapAtHeapNext mid client phys (pagesFor size) = .ok (k', clientVaddr) ∧ shared = some ⟨client, vaddr, clientVaddr⟩ := by
  unfold allocShared at ret
  rw [caller.processCurrent_eq] at ret
  simp only [ok_bind, caller.process_eq] at ret
  split at ret
  · cases ret
    exact Or.inl ⟨rfl, Or.inl rfl⟩
  next pos =>
  obtain ⟨client, -, ret⟩ := of_bind ret
  split at ret
  · cases ret
    exact Or.inl ⟨rfl, Or.inl rfl⟩
  obtain ⟨⟨pmm, phys⟩, taken, ret⟩ := of_bind ret
  split at ret
  · next zero =>
    cases ret
    exact Or.inl ⟨rfl, Or.inr ⟨pmm, zero ▸ taken, rfl⟩⟩
  · obtain ⟨⟨mid, vaddr⟩, first, ret⟩ := of_bind ret
    obtain ⟨⟨last, clientVaddr⟩, second, res⟩ := of_bind ret
    cases res
    exact Or.inr ⟨pmm, phys, mid, client, vaddr, clientVaddr, pos, taken, first, second, rfl⟩

variable {vaddr : Nat}

theorem mapAtHeapNext_record {n phys : Nat} (ret : mapAtHeapNext k p phys n = .ok (k', vaddr)) :
    ∃ process, k.processes p = some process := by
  obtain ⟨process, found, -⟩ := of_bind ret
  exact ⟨process, Kernel.process_eq_ok.mp found⟩

def sharedRegions (p size : Nat) : Option SharedViews → List Region
  | none => []
  | some views => [⟨p, views.vaddr, size, true⟩, ⟨views.client, views.clientVaddr, size, true⟩]

theorem shared_rooms {mid : Kernel} {phys n client clientVaddr : Nat} {other : Process} (record : k.processes p = some process)
    (heaps : HeapsLow k) (small : n < 2 ^ 32) (first : mapAtHeapNext k p phys n = .ok (mid, vaddr))
    (found : mid.processes client = some other) (second : mapAtHeapNext mid client phys n = .ok (k', clientVaddr))
    (low : HeapsLow k') : process.heapNext + 4096 * n ≤ 2 ^ 47 ∧ other.heapNext + 4096 * n ≤ 2 ^ 47 := by
  have before := heaps p process record
  obtain ⟨-, vmm, -, rfl⟩ := mapAtHeapNext_grows record first (by omega) small
  have wide : other.heapNext ≤ 2 ^ 48 := by
    by_cases same : client = p
    · rw [same, Kernel.setProcess_processes, update_self] at found
      obtain rfl := some.inj found
      dsimp only
      omega
    · rw [Kernel.setProcess_processes, update_of_ne same] at found
      have := heaps client other found
      omega
  obtain ⟨-, vmm', -, rfl⟩ := mapAtHeapNext_grows found second wide small
  have last : other.heapNext + 4096 * n ≤ 2 ^ 47 := low client _ (update_self ..)
  refine ⟨?_, last⟩
  by_cases same : client = p
  · rw [same, Kernel.setProcess_processes, update_self] at found
    obtain rfl := some.inj found
    dsimp only at last
    omega
  · refine low p { process with heapNext := process.heapNext + 4096 * n } ?_
    simp [Kernel.setProcess, update_of_ne (Ne.symm same)]

section

variable (sound : Sound k regions level views)
include sound

theorem Sound.allocShared (caller : Caller k p process)
    (ret : allocShared k size handle = .ok (k', shared)) (fitting : size + 4095 < 2 ^ 64)
    (small : (size + 4095) / 4096 < 2 ^ 32) (low : HeapsLow k') :
    ∃ level' views', Sound k' (sharedRegions p size shared ++ regions) level' views' := by
  have pages : pagesFor size = (size + 4095) / 4096 := by
    rw [← u64_of_lt fitting]
    rfl
  have heaps : HeapsLow k := fun q other found => (sound.spaced.heaps q other found).2
  rcases caller.allocShared_ok ret with ⟨rfl, rfl | ⟨pmm, taken, rfl⟩⟩ |
    ⟨pmm, phys, mid, client, vaddr, clientVaddr, pos, taken, first, second, rfl⟩
  · exact ⟨level, views, sound⟩
  · obtain ⟨f, -, fits, rfl, -⟩ := sound.taken (by omega) taken
    exact ⟨level, _, sound.allocated fits⟩
  obtain ⟨f, rfl, fits, rfl, free⟩ := sound.taken (by omega) taken
  have bound : f + pagesFor size ≤ 2 ^ 40 := by
    have last := (free (f + pagesFor size - 1) (by omega) (by omega)).1.small
    omega
  obtain ⟨other, found⟩ := mapAtHeapNext_record second
  have record := (caller.retake (k.vmm.pmm.allocated f (pagesFor size))).record
  obtain ⟨room, room'⟩ := shared_rooms record heaps (by omega) first found second low
  -- the pages are mapped into the caller
  have sound₁ := sound.allocated fits
  obtain ⟨level₂, wf₂, step⟩ := sound₁.mapsAt record first (by omega) bound room
  have pages₁ (page : Nat) (lower : f ≤ page) (upper : page < f + pagesFor size) :
      Vmm.Plain (withPmm k (k.vmm.pmm.allocated f (pagesFor size))).vmm level page ∧
        (withPmm k (k.vmm.pmm.allocated f (pagesFor size))).vmm.pmm.bit page = true ∧
        ∀ a, a ∈ ownedKeys regions → userView k a ≠ some page := by
    refine ⟨(free page lower upper).1.allocated f _, ?_, fun a _ => (free page lower upper).2 a⟩
    show (k.vmm.pmm.allocated f (pagesFor size)).bit page = true
    rw [Pmm.allocated_bit, decide_eq_true ⟨lower, upper⟩, Bool.true_or]
  obtain ⟨views₂, sound₂⟩ := sound₁.map record wf₂ step room pages₁
  -- and into the other process; no owned page shows them yet
  obtain ⟨level₃, wf₃, step'⟩ := sound₂.mapsAt found second (by omega) bound room'
  obtain ⟨views₃, sound₃⟩ := sound₂.map found wf₃ step' room' fun page lower upper => by
    obtain ⟨plain, used, unseen⟩ := pages₁ page lower upper
    refine ⟨plain.keep sound₁.wf.valid used step.keeps, step.keeps.bits page used, fun a owned seen => ?_⟩
    rw [step.seen] at seen
    dsimp only at seen
    rw [sound₁.seenFrom_owned record owned, none_or] at seen
    exact unseen a owned seen
  exact ⟨level₃, views₃, (sound₃.consShared rfl).consShared rfl⟩

theorem Sound.sysAllocShared (caller : Caller k p process) {mid : Kernel} {out : Nat}
    (mapped : Syscall.allocShared k size handle = .ok (mid, shared))
    (ret : sysAllocShared k size handle out = .ok (k', vaddr)) (fitting : size + 4095 < 2 ^ 64)
    (small : (size + 4095) / 4096 < 2 ^ 32) (inside : out + 8 ≤ 2 ^ 47) (low : HeapsLow k') :
    ∃ level' views', Sound k' (sharedRegions p size shared ++ regions) level' views' := by
  rw [Syscall.sysAllocShared, mapped, ok_bind] at ret
  cases shared with
  | none =>
    cases ret
    exact sound.allocShared caller mapped fitting small low
  | some both =>
    obtain ⟨q, other, -, found, ret⟩ := of_bind₂ ret
    obtain ⟨vmm, stored, res⟩ := of_bind ret
    cases res
    obtain ⟨level', views', sound'⟩ := sound.allocShared caller mapped fitting small low
    exact ⟨level', views', sound'.storeUlong (Kernel.process_eq_ok.mp found) inside stored⟩

structure RegionLedger where
  kernel : Kernel
  regions : List Region

inductive Call
  | alloc (size : Nat)
  | allocShared (size handle out : Nat)
  | free (r : Region)

/-- The kernel while `t` runs. -/
def runningTask (k : Kernel) (t : Nat) : Kernel := { k with currentTask := t }

/-- A task makes a call, and the call returns. A process gives back a region that it was given, and
gives it back once. -/
inductive RegionStep : Call → RegionLedger → RegionLedger → Prop
  | alloc {k k' : Kernel} {regions : List Region} {t p size vaddr : Nat} {process : Process}
      (caller : Caller (runningTask k t) p process) (returned : sysAlloc (runningTask k t) size = .ok (k', vaddr)) :
      RegionStep (.alloc size) ⟨k, regions⟩ ⟨k', if vaddr = 0 then regions else ⟨p, vaddr, size, false⟩ :: regions⟩
  | allocShared {k mid k' : Kernel} {regions : List Region} {t p size handle out vaddr : Nat} {process : Process}
      {shared : Option SharedViews} (caller : Caller (runningTask k t) p process)
      (mapped : allocShared (runningTask k t) size handle = .ok (mid, shared))
      (returned : sysAllocShared (runningTask k t) size handle out = .ok (k', vaddr)) :
      RegionStep (.allocShared size handle out) ⟨k, regions⟩ ⟨k', sharedRegions p size shared ++ regions⟩
  | free {k k' : Kernel} {regions : List Region} {t : Nat} {r : Region} {process : Process} (member : r ∈ regions)
      (caller : Caller (runningTask k t) r.owner process)
      (returned : sysFree (runningTask k t) r.vaddr r.size = .ok k') :
      RegionStep (.free r) ⟨k, regions⟩ ⟨k', regions.erase r⟩

def Fitting (size : Nat) : Prop := size + 4095 < 2 ^ 64 ∧ (size + 4095) / 4096 < 2 ^ 32

/-- A call that leaves shared regions alone, with a page count that fits and a result in user memory. -/
def Call.Exclusive : Call → Prop
  | .alloc size => Fitting size
  | .allocShared size _ out => Fitting size ∧ out + 8 ≤ 2 ^ 47
  | .free r => r.shared = false

def ExclusiveStep (l l' : RegionLedger) : Prop := (∃ call : Call, call.Exclusive ∧ RegionStep call l l') ∧ HeapsLow l'.kernel

def FramesInUse (k : Kernel) : Prop := ∀ p process virt frame, k.processes p = some process → virt < 2 ^ 47 →
  k.vmm.frameAt process.addressSpace.pml4 virt = some frame → k.vmm.pmm.bit (frame / 4096) = true

def RegionLedger.Safe (l : RegionLedger) : Prop := ∃ level views, Sound l.kernel l.regions level views

theorem Sound.runningTask (t : Nat) : Sound (runningTask k t) regions level views :=
  ⟨sound.wf, ⟨sound.spaced.roots, sound.spaced.distinct, sound.spaced.heaps⟩,
    ⟨sound.shown.map, sound.shown.used, sound.shown.owned⟩, sound.plain, ⟨sound.placed.below, sound.placed.disjoint⟩⟩

theorem Sound.framesInUse : FramesInUse k := by
  intro p process virt frame record low mapped
  have seen := userView_of_frameAt record low mapped
  have used := views.live _ _ (by rw [sound.shown.map, seen])
  rwa [sound.shown.used] at used

end

theorem Sound.initial (wf : k.vmm.WellFormed upperHalf level) (spaced : Spaced k level)
    (plain : ∀ a page, userView k a = some page → Vmm.Plain k.vmm level page ∧ k.vmm.pmm.bit page = true) :
    ∃ views, Sound k [] level views := by
  have none : ownedKeys [] = ∅ := by
    ext a
    simp [ownedKeys]
  refine ⟨⟨userView k, {page | k.vmm.pmm.bit page = true}, ∅, fun a page seen => (plain a page seen).2,
    fun a owned => absurd owned (Set.notMem_empty a)⟩, wf, spaced, ⟨rfl, rfl, none.symm⟩,
    fun a page seen => (plain a page seen).1, ⟨fun r mem => absurd mem List.not_mem_nil, .nil⟩⟩

theorem safe_step {l l' : RegionLedger} (safe : l.Safe) (step : ExclusiveStep l l') : l'.Safe := by
  obtain ⟨⟨call, exclusive, step⟩, low⟩ := step
  obtain ⟨level, views, sound⟩ := safe
  cases step with
  | alloc caller ret => exact (sound.runningTask _).sysAlloc caller ret exclusive.1 exclusive.2 low
  | allocShared caller mapped ret =>
    exact (sound.runningTask _).sysAllocShared caller mapped ret exclusive.1.1 exclusive.1.2 exclusive.2 low
  | free mem caller ret =>
    obtain ⟨k', freed, views', sound'⟩ := (sound.runningTask _).sysFree mem exclusive caller
    obtain rfl := Except.ok.inj (freed.symm.trans ret)
    exact ⟨level, views', sound'⟩

/-- In every run of calls that leave shared regions alone, every frame mapped in user memory is in
use, and a region that is not shared can be given back. -/
theorem user_frames_in_use (start l : RegionLedger) (level : Nat → Nat) (wf : start.kernel.vmm.WellFormed upperHalf level)
    (spaced : Spaced start.kernel level) (plain : ∀ a page, userView start.kernel a = some page →
      Vmm.Plain start.kernel.vmm level page ∧ start.kernel.vmm.pmm.bit page = true)
    (none : start.regions = []) (run : ReflTransGen ExclusiveStep start l) :
    FramesInUse l.kernel ∧ ∀ r ∈ l.regions, r.shared = false → ∀ t process, Caller (runningTask l.kernel t) r.owner process →
      ∃ k', sysFree (runningTask l.kernel t) r.vaddr r.size = .ok k' := by
  have initial : start.Safe := by
    obtain ⟨views, sound⟩ := Sound.initial wf spaced plain
    exact ⟨level, views, none ▸ sound⟩
  obtain ⟨level', views, sound⟩ := invariant_of_run RegionLedger.Safe (fun _ _ => safe_step) run initial
  refine ⟨sound.framesInUse, fun r member unshared t process caller => ?_⟩
  obtain ⟨k', freed, -⟩ := (sound.runningTask t).sysFree member unshared caller
  exact ⟨k', freed⟩

/-- A server and its client with a channel between them, each in a space that has only the kernel half. -/
def twoProcesses : Kernel where
  vmm := (bootVmm.newRoot 2).newRoot 3
  tasks := fun t => if t = 0x20 then some ⟨1, 0, .running, 0x10, 0, 0, 0, 0x50, 0x50⟩
    else if t = 0x50 then some ⟨2, 0, .ready, 0x40, 0, 0, 0, 0x20, 0x20⟩ else none
  processes := fun p => if p = 0x10 then
      some { pid := 1, parentPid := 0, nextTaskIndex := 1, addressSpace := ⟨0x2000, physToHhdm 0x2000⟩,
             heapNext := userHeapBase, handles := fun i => if i = 2 then ⟨.channel, 0x60⟩ else ⟨.none, 0⟩, exitCode := 0,
             mainTask := 0x20, waitingTask := 0, next := 0x40, prev := 0, firstChild := 0, nextSibling := 0 }
    else if p = 0x40 then
      some { pid := 2, parentPid := 1, nextTaskIndex := 1, addressSpace := ⟨0x3000, physToHhdm 0x3000⟩,
             heapNext := userHeapBase, handles := fun i => if i = 2 then ⟨.channel, 0x60⟩ else ⟨.none, 0⟩, exitCode := 0,
             mainTask := 0x50, waitingTask := 0, next := 0, prev := 0x10, firstChild := 0, nextSibling := 0 }
    else none
  channels := fun c => if c = 0x60 then some ⟨fun side => if side = clientEnd then 2 else 1, fun _ => 0, fun _ => false⟩ else none
  currentTask := 0x20
  taskList := 0x20
  idle := 0x30
  schedulerRunning := true
  nextId := 3
  firstProcess := 0x10
  lastProcess := 0x40
  nextPid := 3

def calls (k : Kernel) (t p : Nat) : Bool := (k.tasks t).map Task.owner == some p && (k.processes p).isSome

theorem caller_of_calls {t : Nat} (here : calls k t p = true) : ∃ process, Caller (runningTask k t) p process := by
  rw [calls, Bool.and_eq_true, beq_iff_eq, isSome_iff_exists] at here
  obtain ⟨owner, process, record⟩ := here
  exact ⟨process, owner, record⟩

theorem share_freed : (sysAlloc (runningTask twoProcesses 0x20) 0x1000 >>= fun (k₁, out) =>
    allocShared (runningTask k₁ 0x20) 0x1000 2 >>= fun (_, shared) =>
    sysAllocShared (runningTask k₁ 0x20) 0x1000 2 out >>= fun (k₂, vaddr) => sysFree (runningTask k₂ 0x20) vaddr 0x1000 >>= fun k₃ =>
    pure (calls k₁ 0x20 0x10 && calls k₂ 0x20 0x10, shared.map SharedViews.vaddr == some vaddr,
      (k₃.processes 0x40).map fun client => k₃.vmm.frameAt client.addressSpace.pml4 userHeapBase, k₃.vmm.pmm.bit 8)) =
    .ok (true, true, some (some 0x8000), false) := by
  decide +kernel

/-- The server shares a page with its client and gives it back: the client still sees the frame. -/
theorem freed_share_still_mapped : ∃ l, ReflTransGen (fun l l' => ∃ call, RegionStep call l l') ⟨twoProcesses, []⟩ l ∧
    ¬FramesInUse l.kernel := by
  obtain ⟨⟨k₁, out⟩, allocated, rest⟩ := of_bind share_freed
  obtain ⟨⟨mid, shared⟩, mapped, rest⟩ := of_bind rest
  obtain ⟨⟨k₂, vaddr⟩, stored, rest⟩ := of_bind rest
  obtain ⟨k₃, freed, seen⟩ := of_bind rest
  simp only [ok_pair, Prod.mk.injEq, Bool.and_eq_true, beq_iff_eq,
    map_eq_some_iff] at seen
  obtain ⟨⟨first, second⟩, ⟨both, rfl, rfl⟩, ⟨client, record, sees⟩, clear⟩ := seen
  obtain ⟨server, caller⟩ := caller_of_calls first
  obtain ⟨server', caller'⟩ := caller_of_calls second
  refine ⟨_, .tail (.tail (.single ⟨_, .alloc (p := 0x10) ⟨rfl, rfl⟩ allocated⟩) ⟨_, .allocShared caller mapped stored⟩)
    ⟨_, .free (r := ⟨0x10, both.vaddr, 0x1000, true⟩) List.mem_cons_self caller' freed⟩, fun inUse => ?_⟩
  have used := inUse 0x40 client userHeapBase 0x8000 record (by decide) sees
  rw [show 0x8000 / 4096 = 8 by decide, clear] at used
  cases used

theorem twoProcesses_tables (t : Nat) (i : Fin 512) : twoProcesses.vmm.tables t i = 0 := by
  have first (t : Nat) : (bootVmm.newRoot 2).tables t i = 0 := by
    by_cases here : t = physToHhdm (2 * 4096)
    · rw [here, Vmm.newRoot_self (by decide +kernel)]
      exact ite_self 0
    · rw [Vmm.newRoot_of_ne here]
      rfl
  show ((bootVmm.newRoot 2).newRoot 3).tables t i = 0
  by_cases here : t = physToHhdm (3 * 4096)
  · rw [here, Vmm.newRoot_self (by decide +kernel), first]
    exact ite_self 0
  · rw [Vmm.newRoot_of_ne here, first]

theorem twoProcesses_blank (a : Nat × Nat) (page : Nat) : userView twoProcesses a ≠ some page := by
  intro seen
  obtain ⟨process, -, -, mapped⟩ := userView_eq_some.mp seen
  rw [Vmm.frameAt, pagePath, Radix.lookup_cons, twoProcesses_tables, entryTable_zero] at mapped
  cases mapped

theorem twoProcesses_record (record : twoProcesses.processes p = some process) :
    (p = 0x10 ∧ process.addressSpace.pml4 = physToHhdm (2 * 4096) ∨ p = 0x40 ∧ process.addressSpace.pml4 = physToHhdm (3 * 4096)) ∧
      process.heapNext = userHeapBase := by
  unfold twoProcesses at record
  dsimp only at record
  split at record
  · next here =>
    obtain rfl := some.inj record
    exact ⟨Or.inl ⟨here, rfl⟩, rfl⟩
  split at record
  · next here =>
    obtain rfl := some.inj record
    exact ⟨Or.inr ⟨here, rfl⟩, rfl⟩
  · cases record

theorem twoProcesses_wellFormed : ∃ level, twoProcesses.vmm.WellFormed upperHalf level ∧ Spaced twoProcesses level := by
  have managed : 2 < bootVmm.pmm.pageCount ∧ 3 < (bootVmm.newRoot 2).pmm.pageCount := by decide +kernel
  have wf := bootVmm_wellFormed.newRoot Radix.ranked_self managed.1 (by decide +kernel)
  have kernel : Radix.ranked (Radix.ranked (fun _ => 0) bootVmm.kernelSpace.pml4 4) (physToHhdm (2 * 4096)) 4
      (bootVmm.newRoot 2).kernelSpace.pml4 = 4 := by
    rw [Radix.ranked_of_ne (by decide +kernel)]
    exact Radix.ranked_self
  have differ : physToHhdm (2 * 4096) ≠ physToHhdm (3 * 4096) := by decide +kernel
  refine ⟨_, wf.newRoot kernel managed.2 (by decide +kernel),
    ⟨fun p process record => ?_, fun p q process other record record' meet => ?_, fun p process record => ?_⟩⟩
  · rcases (twoProcesses_record record).1 with ⟨-, root⟩ | ⟨-, root⟩
    · rw [root, Radix.ranked_of_ne differ, Radix.ranked_self]
    · rw [root, Radix.ranked_self]
  · rcases (twoProcesses_record record).1 with ⟨rfl, root⟩ | ⟨rfl, root⟩ <;>
      rcases (twoProcesses_record record').1 with ⟨rfl, root'⟩ | ⟨rfl, root'⟩
    · rfl
    · exact absurd (root.symm.trans (meet.trans root')) differ
    · exact absurd (root'.symm.trans (meet.symm.trans root)) differ
    · rfl
  · rw [(twoProcesses_record record).2]
    decide

theorem server_allocates : (sysAlloc (runningTask twoProcesses 0x20) 0x1000 >>= fun (k, vaddr) =>
    pure (calls k 0x20 0x10, vaddr)) = .ok (true, userHeapBase) := by
  decide +kernel

/-- The server takes a page, and can give it back. -/
theorem server_frees_own_page : ∃ l, ReflTransGen ExclusiveStep ⟨twoProcesses, []⟩ l ∧ FramesInUse l.kernel ∧
    ∃ k', sysFree (runningTask l.kernel 0x20) userHeapBase 0x1000 = .ok k' := by
  obtain ⟨⟨k, vaddr⟩, allocated, seen⟩ := of_bind server_allocates
  simp only [ok_pair] at seen
  obtain ⟨here, rfl⟩ := seen
  obtain ⟨server, caller⟩ := caller_of_calls here
  have low : HeapsLow k := by
    obtain ⟨-, pmm, phys, -, mapped⟩ := Caller.sysAlloc_ok (p := 0x10) ⟨rfl, rfl⟩ allocated (by decide)
    obtain ⟨-, vmm, -, rfl⟩ := mapAtHeapNext_grows rfl mapped (by decide) (by decide +kernel)
    intro q process record
    rw [Kernel.setProcess_processes] at record
    by_cases same : q = 0x10
    · rw [same, update_self] at record
      rw [← some.inj record]
      decide +kernel
    · rw [update_of_ne same] at record
      rw [(twoProcesses_record record).2]
      decide
  have steps : ReflTransGen ExclusiveStep ⟨twoProcesses, []⟩ ⟨k, [⟨0x10, userHeapBase, 0x1000, false⟩]⟩ :=
    .single ⟨⟨.alloc 0x1000, ⟨by decide, by decide⟩, .alloc ⟨rfl, rfl⟩ allocated⟩, low⟩
  obtain ⟨level, wf, spaced⟩ := twoProcesses_wellFormed
  obtain ⟨inUse, frees⟩ := user_frames_in_use _ _ level wf spaced (fun a page seen => absurd seen (twoProcesses_blank a page))
    rfl steps
  exact ⟨_, steps, inUse, frees _ (List.mem_singleton_self _) rfl 0x20 server caller⟩

end Xos.Syscall
