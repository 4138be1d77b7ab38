import Xos.Io.E1000
import Xos.Lib.Extents
import Xos.Memory.AddressSpaces
import Xos.Memory.HeapRuns
import Xos.Memory.PmmRuns

/-!
# Buffers that a device reads

A block may begin in one extent of the heap and end in the next one, whose frames may be anywhere. The device sees only
the translation of the first byte.
-/
namespace Xos.Io

open Memory Lib Lib.BlockList Word Relation Outcome Function

/-- What `pmm_alloc_pages` returns for a number of pages. -/
def framesFor (v : Vmm) (pages : Nat) : Nat :=
  match pmmAllocPages v.pmm pages with
  | .ok (_, phys) => phys
  | .error _ => 0

/-- The pages that are mapped at an address, on the frames that the allocator gives for them. -/
def extentAt (v : Vmm) (start pages : Nat) : Extent := ⟨start, framesFor v pages, pages * 4096⟩

def grownExtents (h h' : Heap Vmm) : List Extent :=
  if h'.heapEnd = h.heapEnd then [] else [extentAt h.pages h.heapEnd ((h'.heapEnd - h.heapEnd) / 4096)]

def withPmm (h : Heap Vmm) (pmm : Pmm) : Heap Vmm := { h with pages := { h.pages with pmm := pmm } }

/-- The heap and its live pointers, the pages that others hold, the extents of the heap, and the
buffers that the device was told of. -/
structure DmaLedger where
  heap : Heap Vmm
  live : Nat → Option Nat
  held : Set Nat
  extents : List Extent
  handed : List DmaBuffer

/-- A step of the users of the heap, an allocation or a free by other users of the page allocator, or
a live buffer that the driver hands to the device. -/
inductive DmaStep (contents : Vmm → Nat → Bytes) : DmaLedger → DmaLedger → Prop
  | heap {h h' : Heap Vmm} {live live' : Nat → Option Nat} {held : Set Nat} {extents : List Extent} {handed : List DmaBuffer}
      (step : HeapStep (kernelPages contents) ⟨h, live⟩ ⟨h', live'⟩) :
      DmaStep contents ⟨h, live, held, extents, handed⟩ ⟨h', live', held, extents ++ grownExtents h h', handed⟩
  | take {h : Heap Vmm} {live : Nat → Option Nat} {held : Set Nat} {extents : List Extent} {handed : List DmaBuffer}
      {pmm : Pmm} {addr : Nat} (r : Request) (legal : r.Legal) (returned : r.run h.pages.pmm = .ok (pmm, addr)) :
      DmaStep contents ⟨h, live, held, extents, handed⟩
        ⟨withPmm h pmm, live, held ∪ pagesFrom addr r.count, extents, handed⟩
  | give {h : Heap Vmm} {live : Nat → Option Nat} {held : Set Nat} {extents : List Extent} {handed : List DmaBuffer}
      {pmm : Pmm} {addr : Nat} (owned : addr / 4096 ∈ held) (returned : pmmFreePage h.pages.pmm addr = .ok pmm) :
      DmaStep contents ⟨h, live, held, extents, handed⟩ ⟨withPmm h pmm, live, held \ {addr / 4096}, extents, handed⟩
  | hand {h : Heap Vmm} {live : Nat → Option Nat} {held : Set Nat} {extents : List Extent} {handed : List DmaBuffer}
      {data size len : Nat} (owned : live data = some size) (inside : len ≤ size) :
      DmaStep contents ⟨h, live, held, extents, handed⟩ ⟨h, live, held, extents, e1000Send h data len :: handed⟩

def UnwrappedDma (contents : Vmm → Nat → Bytes) (l l' : DmaLedger) : Prop :=
  DmaStep contents l l' ∧ l.heap.heapEnd ≤ l'.heap.heapEnd

variable {contents : Vmm → Nat → Bytes}

variable {h' : Heap Vmm}

theorem malloc_hand (l : DmaLedger) {size ptr : Nat} (pos : 1 ≤ size) (small : size < 2 ^ 32)
    (block : l.heap.kmalloc (kernelPages contents) size = .ok (h', ptr)) :
    ∃ l', ReflTransGen (DmaStep contents) l l' ∧ l'.heap = h' ∧ l'.live = update l.live ptr (some size) ∧
      l'.handed = dmaBuffer h' ptr size :: l.handed :=
  ⟨_, .tail (.single (.heap (.malloc pos small block))) (.hand (update_self ..) (Nat.le_refl _)), rfl, rfl, rfl⟩

theorem e1000InitTx_run {l : DmaLedger} {buffers : List DmaBuffer}
    (ret : e1000InitTx contents l.heap = .ok (h', buffers)) :
    ∃ l', ReflTransGen (DmaStep contents) l l' ∧ l'.heap = h' ∧ l'.handed = buffers ++ l.handed := by
  obtain ⟨⟨h, ptr⟩, block, res⟩ := of_bind ret
  cases res
  obtain ⟨l', run, heap, -, handed⟩ := malloc_hand l (by decide) (by decide) block
  exact ⟨l', run, heap, handed⟩

/-- `e1000_init_rx` hands over the buffers that it allocates, and then its ring. -/
theorem e1000InitRx_run {l : DmaLedger} {buffers : List DmaBuffer}
    (ret : e1000InitRx contents l.heap = .ok (h', buffers)) :
    ∃ l', ReflTransGen (DmaStep contents) l l' ∧ l'.heap = h' ∧ l'.handed = buffers ++ l.handed := by
  obtain ⟨⟨h₀, ring⟩, block, ret⟩ := of_bind ret
  obtain ⟨⟨h₁, handed⟩, looped, res⟩ := of_bind ret
  cases res
  have start : DmaStep contents l ⟨h₀, update l.live ring (some (rxDescSize * rxDescCount)), l.held,
      l.extents ++ grownExtents l.heap h₀, l.handed⟩ := .heap (.malloc (by decide) (by decide) block)
  -- the ring stays live while the buffers are allocated
  obtain ⟨l', run, rfl, shown, size, owned, room⟩ := Outcome.forRange_kept
    (fun s => ∃ l', ReflTransGen (DmaStep contents) l l' ∧ l'.heap = s.1 ∧ l'.handed = s.2 ++ l.handed ∧
      ∃ size, l'.live ring = some size ∧ rxDescCount * rxDescSize ≤ size)
    (fun i s s' _ _ inv step => by
      obtain ⟨l', run, heap, shown, size, owned, room⟩ := inv
      obtain ⟨⟨h, ptr⟩, block, res⟩ := of_bind step
      cases res
      rw [← heap] at block
      obtain ⟨l'', run', heap', live, shown'⟩ := malloc_hand l' (by decide) (by decide) block
      refine ⟨l'', run.trans run', heap', by rw [shown', shown]; rfl, ?_⟩
      by_cases same : ring = ptr
      · exact ⟨rxBufferSize, by rw [live, same, update_self], by decide⟩
      · exact ⟨size, by rw [live, update_of_ne same, owned], room⟩)
    looped ⟨_, .single start, rfl, rfl, rxDescSize * rxDescCount, update_self .., by decide⟩
  exact ⟨_, run.tail (.hand owned room), rfl, congrArg _ shown⟩

def translate (v : Vmm) (virt : Nat) : Nat := vmmVirtToPhys v v.kernelSpace virt

section Translate

variable {v v' : Vmm} {shared : Fin 512 → Prop} {level level' : Nat → Nat}

variable {virt : Nat}

theorem translate_of_frame (tabled : v.Tabled shared level) (root : level v.kernelSpace.pml4 = 4) {frame : Nat}
    (mapped : v.frameAt v.kernelSpace.pml4 virt = some frame) : translate v virt = frame + virt % 4096 := by
  have aligned := Vmm.frameAt_aligned mapped
  rw [translate, tabled.virtToPhys root, mapped]
  show frame ||| (virt &&& (2 ^ 12 - 1)) = _
  rw [and_low]
  exact or_low (k := 12) (by omega) (Nat.mod_lt _ (by decide))

theorem translate_congr (tabled : v.Tabled shared level) (tabled' : v'.Tabled shared level')
    (root : level v.kernelSpace.pml4 = 4) (root' : level' v'.kernelSpace.pml4 = 4)
    (same : v'.frameAt v'.kernelSpace.pml4 virt = v.frameAt v.kernelSpace.pml4 virt) : translate v' virt = translate v virt := by
  rw [translate, translate, tabled'.virtToPhys root', tabled.virtToPhys root, same]

theorem page_of_heap {x y : Nat} (lowX : kernelHeap ≤ x) (lowY : kernelHeap ≤ y) (highX : x < 2 ^ 64) (highY : y < 2 ^ 64)
    (same : pageOf x = pageOf y) : x / 4096 = y / 4096 := by
  unfold pageOf at same
  unfold kernelHeap at lowX lowY
  omega

/-- What the heap gets when it grows: consecutive frames behind its end, and nothing changes before. -/
structure Grows (shared : Fin 512 → Prop) (v v' : Vmm) (level level' : Nat → Nat) (virt n : Nat) : Prop where
  wf : v'.WellFormed shared level'
  root : level' v'.kernelSpace.pml4 = 4
  plain : ∀ page, Vmm.Plain v level page → v.pmm.bit page = true → Vmm.Plain v' level' page ∧ v'.pmm.bit page = true
  maps : (extentAt v virt n).Maps (translate v')
  before : ∀ x, kernelHeap ≤ x → x < virt → translate v' x = translate v x

theorem grows_of_mapPages (wf : v.WellFormed shared level) (root : level v.kernelSpace.pml4 = 4) {shown : Bytes} {n : Nat}
    (ret : (kernelPages contents).mapPages v virt n = .ok (v', shown)) (aligned : virt % 4096 = 0)
    (low : kernelHeap ≤ virt) (pos : 1 ≤ n) (small : n < 2 ^ 32) (room : virt + 4096 * n ≤ 2 ^ 64) :
    ∃ level', Grows shared v v' level level' virt n := by
  obtain ⟨f, level', fits, taken, wf', maps⟩ := wf.kernelPages root ret
  have space : v'.kernelSpace = v.kernelSpace := maps.kernelSpace
  have root' : level' v'.kernelSpace.pml4 = 4 := by rw [space, maps.levels _ (by omega), root]
  have bound : f + n ≤ 2 ^ 40 := by
    -- the last of the pages was free
    obtain ⟨f', fits', window, -, same⟩ := pmmAllocPages_ok wf.valid taken
    rw [u32_of_lt small] at fits' window
    have free := window (f' + n - 1) (by omega) (by omega)
    rw [Pmm.isFree, Bool.not_eq_true'] at free
    have last := (wf.plain_of_clear (by omega) free).small
    omega
  have here (virt : Nat) := maps.here virt
  rw [Vmm.writtenRange_eq (by omega) (by omega) (by decide)] at here
  refine ⟨level', wf', root', fun page plain used => ?_, fun i inside => ?_, fun x lowX highX => ?_⟩
  · refine ⟨(plain.allocated f _).keep (wf.valid.allocated fits) ?_ maps.toKeeps, maps.bits page ?_⟩
    all_goals
      show (v.pmm.allocated f (u32 n)).bit page = true
      rw [Pmm.allocated_bit, used, Bool.or_true]
  · have frames : (extentAt v virt n).image = f * 4096 := by
      show framesFor v n = _
      rw [framesFor, taken]
    replace inside : i < n * 4096 := inside
    have page : pageOf (virt + i) = pageOf (virt + 4096 * (i / 4096)) := by
      unfold pageOf
      omega
    have mapped : v'.frameAt v'.kernelSpace.pml4 (virt + i) = some (f * 4096 + 4096 * (i / 4096)) := by
      rw [space, here, page, Vmm.rangeMap_of_distinct (by omega) fun j within same => ?_, Option.some_or]
      have := page_of_heap (by omega) (by omega) (by omega) (by omega) same
      omega
    rw [frames]
    show translate v' (virt + i) = _
    rw [translate_of_frame wf'.tabled root' mapped]
    omega
  · refine translate_congr wf.tabled wf'.tabled root root' ?_
    rw [space, here, Vmm.rangeMap_eq_none.mpr, Option.none_or]
    · rfl
    · intro i within same
      have := page_of_heap lowX (by omega) (by omega) (by omega) same
      omega

end Translate

/-- The extents tile the heap and show the frames that were taken for them; pages of others are no
tables; what was handed over lies in the heap. -/
structure Traced (l : DmaLedger) (shared : Fin 512 → Prop) (level : Nat → Nat) : Prop where
  sound : ∃ cells, HeapLedger.Sound ⟨l.heap, l.live⟩ cells
  wf : l.heap.pages.WellFormed shared level
  root : level l.heap.pages.kernelSpace.pml4 = 4
  aligned : l.heap.heapEnd % 4096 = 0
  tile : Tile kernelHeap l.extents l.heap.heapEnd
  maps : ∀ e ∈ l.extents, e.Maps (translate l.heap.pages)
  others : ∀ page ∈ l.held, Vmm.Plain l.heap.pages level page ∧ l.heap.pages.pmm.bit page = true
  handed : ∀ b ∈ l.handed, kernelHeap ≤ b.virt ∧ b.virt < l.heap.heapEnd ∧ b.virt + b.length ≤ l.heap.heapEnd ∧
    b.phys = translate l.heap.pages b.virt

section Steps

variable {l : DmaLedger} {h h' : Heap Vmm} {live live' : Nat → Option Nat} {held : Set Nat} {extents : List Extent}
  {handed : List DmaBuffer} {shared : Fin 512 → Prop} {level : Nat → Nat}

section

variable (traced : Traced ⟨h, live, held, extents, handed⟩ shared level)
include traced

theorem Traced.stay (sound : ∃ cells, HeapLedger.Sound ⟨h', live'⟩ cells)
    (pages : h'.pages = h.pages) (stop : h'.heapEnd = h.heapEnd) :
    Traced ⟨h', live', held, extents ++ grownExtents h h', handed⟩ shared level := by
  have none : extents ++ grownExtents h h' = extents := by rw [grownExtents, if_pos stop, List.append_nil]
  rw [none]
  refine ⟨sound, ?_, ?_, ?_, ?_, ?_, ?_, ?_⟩ <;> simp only [pages, stop]
  exacts [traced.wf, traced.root, traced.aligned, traced.tile, traced.maps, traced.others, traced.handed]

private theorem Traced.grow {n : Nat}
    (sound : ∃ cells, HeapLedger.Sound ⟨h', live'⟩ cells) (grown : Heap.GrownBy (kernelPages contents) n h h')
    (pos : 1 ≤ n) (small : n < 2 ^ 32) (unwrapped : h.heapEnd ≤ h'.heapEnd) (bound : h'.heapEnd < 2 ^ 64) :
    ∃ level', Traced ⟨h', live', held, extents ++ grownExtents h h', handed⟩ shared level' := by
  obtain ⟨⟨shown, mapped⟩, stop⟩ := grown
  have page : pageSize = 4096 := rfl
  have aligned : h.heapEnd % 4096 = 0 := traced.aligned
  have low : kernelHeap ≤ h.heapEnd := traced.tile.le
  -- the end does not wrap, so the sum is exact
  have sum : h'.heapEnd = h.heapEnd + n * 4096 := by
    have high : h.heapEnd < 2 ^ 64 := by omega
    rw [stop, page, u64_of_lt (show n * 4096 < 2 ^ 64 by omega)] at unwrapped ⊢
    by_contra differ
    have wraps : 2 ^ 64 ≤ h.heapEnd + n * 4096 := by
      by_contra small
      exact differ (u64_of_lt (by omega))
    rw [u64_sub_of_le wraps (by omega)] at unwrapped
    omega
  have extent : grownExtents h h' = [extentAt h.pages h.heapEnd n] := by
    rw [grownExtents, if_neg (by omega), sum, Nat.add_sub_cancel_left, Nat.mul_div_cancel _ (by decide)]
  obtain ⟨level', grows⟩ := grows_of_mapPages traced.wf traced.root mapped aligned low pos small (by omega)
  rw [extent]
  refine ⟨level', sound, grows.wf, grows.root, by dsimp only; omega, ?_, fun e mem => ?_, fun page mem => ?_, fun b mem => ?_⟩
  · have size : (extentAt h.pages h.heapEnd n).size = n * 4096 := rfl
    show Tile kernelHeap _ h'.heapEnd
    rw [sum, ← size]
    exact traced.tile.append rfl (by omega)
  · rcases List.mem_append.mp mem with old | new
    · intro i inside
      have place := traced.tile.bounds old
      rw [← traced.maps e old i inside]
      exact grows.before _ (by omega) (by dsimp only at place; omega)
    · rw [List.mem_singleton.mp new]
      exact grows.maps
  · obtain ⟨plain, used⟩ := traced.others page mem
    exact grows.plain page plain used
  · obtain ⟨first, before, last, shown⟩ := traced.handed b mem
    dsimp only at before last
    refine ⟨first, by dsimp only; omega, by dsimp only; omega, ?_⟩
    rw [shown]
    exact (grows.before b.virt first before).symm

private theorem Traced.repage {pmm : Pmm} {held' : Set Nat} (wf : (withPmm h pmm).pages.WellFormed shared level)
    (others : ∀ page ∈ held', Vmm.Plain (withPmm h pmm).pages level page ∧ pmm.bit page = true) :
    Traced ⟨withPmm h pmm, live, held', extents, handed⟩ shared level := by
  obtain ⟨cells, sound⟩ := traced.sound
  exact ⟨⟨cells, sound.repage _⟩, wf, traced.root, traced.aligned, traced.tile, traced.maps, others, traced.handed⟩

end

theorem Traced.step {l' : DmaLedger} (traced : Traced l shared level) (step : UnwrappedDma contents l l') :
    ∃ level', Traced l' shared level' := by
  obtain ⟨step, unwrapped⟩ := step
  cases step with
  | @heap h h' live live' held extents handed step =>
    obtain ⟨cells, sound⟩ := traced.sound
    obtain ⟨cells', sound'⟩ := sound.step ⟨step, unwrapped⟩
    have bound : h'.heapEnd < 2 ^ 64 := by
      rw [sound'.repr.stop]
      exact u64_lt _
    cases step with
    | malloc pos small ret =>
      rcases Heap.kmalloc_grownBy ret with ⟨pages, stop⟩ | grown
      · exact ⟨level, traced.stay ⟨cells', sound'⟩ pages stop⟩
      · obtain ⟨-, -, -, most⟩ := Heap.alignUp_spec pos small
        have header : heapBlockSize = 32 := rfl
        have page : pageSize = 4096 := rfl
        rw [u64_of_lt (by omega)] at grown
        obtain ⟨least, -, largest⟩ := Heap.expandPages_spec (Nat.le_trans (Nat.add_le_add_left most heapBlockSize) (by decide))
        rw [page] at least largest
        exact traced.grow ⟨cells', sound'⟩ grown (by omega) (by omega) unwrapped bound
    | free owned =>
      exact ⟨level, traced.stay ⟨cells', sound'⟩ (Heap.sameGlobals_kfree h _).pages (Heap.sameGlobals_kfree h _).heapEnd⟩
    | write byte owned low high => exact ⟨level, traced.stay ⟨cells', sound'⟩ rfl rfl⟩
  | @take h live held extents handed pmm addr r legal ret =>
    have wf : h.pages.WellFormed shared level := traced.wf
    obtain ⟨-, fits, window, rfl⟩ := Request.run_ok wf.valid legal ret
    refine ⟨level, traced.repage (wf.allocated _ _ fits) fun page mem => ?_⟩
    rw [Pmm.allocated_bit, Bool.or_eq_true, decide_eq_true_eq]
    rcases mem with old | ⟨low, high⟩
    · obtain ⟨plain, used⟩ := traced.others page old
      exact ⟨plain.allocated _ _, Or.inr used⟩
    · have free := window page low high
      rw [Pmm.isFree, Bool.not_eq_true'] at free
      exact ⟨(wf.plain_of_clear (high.trans_le fits) free).allocated _ _, Or.inl ⟨low, high⟩⟩
  | @give h live held extents handed pmm addr owned ret =>
    have wf : h.pages.WellFormed shared level := traced.wf
    obtain ⟨-, -, -, rfl⟩ := (pmmFreePage_ok_iff wf.valid _).mp ret
    refine ⟨level, traced.repage (wf.released (traced.others _ owned).1) fun page mem => ?_⟩
    obtain ⟨plain, used⟩ := traced.others page mem.1
    refine ⟨plain.released _, ?_⟩
    rw [Pmm.released_bit]
    simpa [used] using mem.2
  | @hand h live held extents handed data size len owned inside =>
    obtain ⟨cells, sound⟩ := traced.sound
    obtain ⟨first, before, last⟩ := sound.live_bounds owned
    refine ⟨level, ⟨cells, sound⟩, traced.wf, traced.root, traced.aligned, traced.tile, traced.maps, traced.others, fun b mem => ?_⟩
    rcases List.mem_cons.mp mem with rfl | old
    · exact ⟨first, before, Nat.le_trans (Nat.add_le_add_left inside data) last, rfl⟩
    · exact traced.handed b old

theorem Traced.initial {v : Vmm} {mem : Bytes} (wf : v.WellFormed shared level) (root : level v.kernelSpace.pml4 = 4)
    (others : ∀ page ∈ held, Vmm.Plain v level page ∧ v.pmm.bit page = true)
      (started : heapInit (kernelPages contents) v mem = .ok h) :
    ∃ level', Traced ⟨h, fun _ => none, held, [extentAt v kernelHeap heapInitialPages], []⟩ shared level' := by
  obtain ⟨shown, mapped⟩ := Heap.heapInit_pages started
  obtain ⟨level', grows⟩ := grows_of_mapPages wf root mapped (by decide) (Nat.le_refl _) (by decide) (by decide) (by decide)
  have stop : h.heapEnd = kernelHeap + heapInitialPages * 4096 := by
    have repr := Heap.heapInit_repr started
    rw [repr.stop, repr.start]
    decide +kernel
  refine ⟨level', ⟨_, .start started⟩, grows.wf, grows.root, ?_, ?_, fun e member => ?_, fun page member => ?_, nofun⟩
  · show h.heapEnd % 4096 = 0
    rw [stop]
    decide
  · exact ⟨rfl, show 0 < heapInitialPages * 4096 by decide, stop.symm⟩
  · rw [List.mem_singleton.mp member]
    exact grows.maps
  · obtain ⟨plain, used⟩ := others page member
    exact grows.plain page plain used

theorem Traced.translate_eq {l' : DmaLedger} {level' : Nat → Nat} (traced : Traced l shared level)
    (traced' : Traced l' shared level')
    (extents : l.extents ⊆ l'.extents) {x : Nat} (low : kernelHeap ≤ x) (high : x < l.heap.heapEnd) :
    translate l'.heap.pages x = translate l.heap.pages x := by
  obtain ⟨e, mem, first, last⟩ := traced.tile.covers low high
  obtain ⟨i, rfl⟩ := Nat.exists_eq_add_of_le first
  rw [traced.maps e mem i (by omega), traced'.maps e (extents mem) i (by omega)]

end Steps

/-- Whatever the heap and the page allocator have done since start-up, a buffer that was handed to the
device is contiguous for it exactly when the frames meet wherever two extents of the heap meet inside
the buffer. -/
theorem dma_contiguous_iff (contents : Vmm → Nat → Bytes) (v : Vmm) (mem : Bytes) (h : Heap Vmm) (held : Set Nat)
    (shared : Fin 512 → Prop) (level : Nat → Nat) (wf : v.WellFormed shared level) (root : level v.kernelSpace.pml4 = 4)
    (others : ∀ page ∈ held, Vmm.Plain v level page ∧ v.pmm.bit page = true)
    (started : heapInit (kernelPages contents) v mem = .ok h) (l : DmaLedger)
    (run : ReflTransGen (UnwrappedDma contents) ⟨h, fun _ => none, held, [extentAt v kernelHeap heapInitialPages], []⟩ l) :
    ∀ b ∈ l.handed, (∀ i, i < b.length →
        vmmVirtToPhys l.heap.pages l.heap.pages.kernelSpace (b.virt + i) = b.phys + i) ↔
      l.extents.IsChain (Meets b.virt (b.virt + b.length)) := by
  intro b member
  obtain ⟨level', traced⟩ := invariant_of_run (fun l => ∃ level, Traced l shared level)
    (fun _ _ ⟨_, traced⟩ step => traced.step step) run (Traced.initial wf root others started)
  obtain ⟨first, -, last, shown⟩ := traced.handed b member
  rw [← contiguous_iff_chain traced.tile traced.maps first last, shown]
  rfl

theorem two_allocations : (heapInit (kernelPages zeroBytes) bootVmm (fun _ => 0) >>= fun h =>
    h.kmalloc (kernelPages zeroBytes) 15000 >>= fun (h₁, _) => h₁.kmalloc (kernelPages zeroBytes) 2048 >>= fun (h₂, data) =>
    pure (decide (h.heapEnd ≤ h₁.heapEnd) && decide (h₁.heapEnd ≤ h₂.heapEnd), (e1000Send h₂ data 2048).phys,
      vmmVirtToPhys h₂.pages h₂.pages.kernelSpace (data + 1312))) = .ok (true, 0x5AE0, 0x9000) := by
  decide +kernel

/-- The first extent ends inside the buffer, and the tables have taken the frames behind it. -/
theorem buffer_across_extents : ∃ h l b, heapInit (kernelPages zeroBytes) bootVmm (fun _ => 0) = .ok h ∧
    ReflTransGen (UnwrappedDma zeroBytes) ⟨h, fun _ => none, ∅, [extentAt bootVmm kernelHeap heapInitialPages], []⟩ l ∧
    b ∈ l.handed ∧ b.length = 2048 ∧ b.phys = 0x5AE0 ∧
    vmmVirtToPhys l.heap.pages l.heap.pages.kernelSpace (b.virt + 1312) = 0x9000 := by
  obtain ⟨h, ⟨h₁, ptr⟩, started, first, rest⟩ := of_bind₂ two_allocations
  obtain ⟨⟨h₂, data⟩, second, seen⟩ := of_bind rest
  simp only [ok_pair, Prod.mk.injEq, Bool.and_eq_true, decide_eq_true_eq] at seen
  obtain ⟨⟨low, high⟩, phys, far⟩ := seen
  refine ⟨h, _, e1000Send h₂ data 2048, started, .tail (.tail (.single ⟨.heap (.malloc (by decide) (by decide) first), low⟩)
    ⟨.heap (.malloc (by decide) (by decide) second), high⟩) ⟨.hand (update_self ..) (Nat.le_refl 2048), Nat.le_refl _⟩,
    List.mem_cons_self, rfl, phys, far⟩

theorem one_allocation : (heapInit (kernelPages zeroBytes) bootVmm (fun _ => 0) >>= fun h =>
    h.kmalloc (kernelPages zeroBytes) 2048 >>= fun (h₁, _) => pure (decide (h₁.heapEnd = h.heapEnd))) = .ok true := by
  decide +kernel

/-- A buffer inside the first extent is contiguous. -/
theorem buffer_inside_extent : ∃ h l b, heapInit (kernelPages zeroBytes) bootVmm (fun _ => 0) = .ok h ∧
    ReflTransGen (UnwrappedDma zeroBytes) ⟨h, fun _ => none, ∅, [extentAt bootVmm kernelHeap heapInitialPages], []⟩ l ∧
    b ∈ l.handed ∧ b.length = 2048 ∧ ∀ i, i < b.length →
      vmmVirtToPhys l.heap.pages l.heap.pages.kernelSpace (b.virt + i) = b.phys + i := by
  obtain ⟨h, ⟨h₁, data⟩, started, first, seen⟩ := of_bind₂ one_allocation
  have stop : h₁.heapEnd = h.heapEnd := of_decide_eq_true (Except.ok.inj seen)
  have steps : ReflTransGen (UnwrappedDma zeroBytes) ⟨h, fun _ => none, ∅, [extentAt bootVmm kernelHeap heapInitialPages], []⟩ _ :=
    .tail (.single ⟨.heap (.malloc (by decide) (by decide) first), Nat.le_of_eq stop.symm⟩)
      ⟨.hand (update_self ..) (Nat.le_refl 2048), Nat.le_refl _⟩
  refine ⟨h, _, e1000Send h₁ data 2048, started, steps, List.mem_cons_self, rfl, ?_⟩
  refine (dma_contiguous_iff zeroBytes bootVmm _ h ∅ upperHalf _ bootVmm_wellFormed Radix.ranked_self
    (fun page member => absurd member (Set.notMem_empty page)) started _ steps _ List.mem_cons_self).mpr ?_
  rw [grownExtents, if_pos stop, List.append_nil]
  exact .singleton _

end Xos.Io
