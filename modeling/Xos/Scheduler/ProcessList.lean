import Xos.Scheduler.Threads

/-!
# The list of processes (`process_manager.c`)

As long as no process is deleted the list holds just the processes that were created. `process_delete` frees a record
without taking it out of the list.
-/
namespace Xos.Scheduler

open Lib Memory Relation Outcome Kernel List Function Option

variable {k k' : Kernel} {t p : Nat}

def Kernel.nextProcess (k : Kernel) (p : Nat) : Option Nat := (k.processes p).map Process.next

def Kernel.prevProcess (k : Kernel) (p : Nat) : Option Nat := (k.processes p).map Process.prev

def Kernel.pidAt (k : Kernel) (p : Nat) : Option Nat := (k.processes p).map Process.pid

variable {nodes : List Nat} {l : ListLedger}

variable {pid : Nat}

theorem findProcess_walk {fuel : Nat} (walk : Walk k.nextProcess 0 p nodes) (enough : nodes.length < fuel) :
    ∃ r, findProcessFrom k pid fuel p = .ok r ∧
      (r ∈ nodes ∧ k.pidAt r = some pid ∨ r = 0 ∧ ∀ q ∈ nodes, k.pidAt q ≠ some pid) := by
  obtain ⟨fuel, rfl⟩ := Nat.exists_eq_add_one_of_ne_zero (Nat.ne_zero_of_lt enough)
  induction nodes generalizing p fuel with
  | nil =>
    rw [findProcessFrom, if_pos (walk.eq_nil_iff.mp rfl)]
    exact ⟨0, rfl, .inr ⟨rfl, nofun⟩⟩
  | cons q rest ih =>
    obtain ⟨rfl, nonnull, c, leads, later⟩ := walk
    obtain ⟨process, record, rfl⟩ := Option.map_eq_some_iff.mp leads
    have pidHere : k.pidAt p = some process.pid := congrArg (Option.map _) record
    rw [findProcessFrom, if_neg nonnull, process_eq_ok.mpr record, ok_bind]
    by_cases here : process.pid = pid
    · rw [if_pos here]
      exact ⟨p, rfl, .inl ⟨mem_cons_self, here ▸ pidHere⟩⟩
    · rw [if_neg here]
      obtain ⟨fuel, rfl⟩ := Nat.exists_eq_add_one_of_ne_zero (Nat.ne_zero_of_lt (Nat.lt_of_succ_lt_succ enough))
      obtain ⟨r, found, res⟩ := ih later fuel (Nat.lt_of_succ_lt_succ enough)
      refine ⟨r, found, ?_⟩
      rcases res with ⟨mem, same⟩ | ⟨null, none⟩
      · exact .inl ⟨mem_cons_of_mem p mem, same⟩
      · refine .inr ⟨null, fun q mem => ?_⟩
        rcases mem_cons.mp mem with rfl | mem
        · rw [pidHere]
          exact fun same => here (Option.some.inj same)
        · exact none q mem

theorem processList_walk {count : Nat} (walk : Walk k.nextProcess 0 p nodes)
    (mains : ∀ q ∈ nodes, ∃ m, k.mainOf q = some m ∧ k.tasks m ≠ none) : ∃ entries, processListFrom k count p = .ok entries ∧
      entries.map (fun entry => some entry.1) = (nodes.take count).map k.pidAt := by
  induction count generalizing p nodes with
  | zero => exact ⟨[], rfl, rfl⟩
  | succ count ih =>
    cases nodes with
    | nil =>
      rw [processListFrom, if_pos (walk.eq_nil_iff.mp rfl)]
      exact ⟨[], rfl, rfl⟩
    | cons q rest =>
      obtain ⟨rfl, nonnull, c, leads, later⟩ := walk
      obtain ⟨process, record, rfl⟩ := Option.map_eq_some_iff.mp leads
      obtain ⟨m, main, exists_⟩ := mains p mem_cons_self
      obtain rfl : process.mainTask = m := Option.some.inj ((congrArg (Option.map _) record).symm.trans main)
      obtain ⟨task, found⟩ := Option.ne_none_iff_exists'.mp exists_
      obtain ⟨entries, listed, same⟩ := ih later fun q mem => mains q (mem_cons_of_mem p mem)
      rw [processListFrom, if_neg nonnull, process_eq_ok.mpr record, ok_bind, task_eq_ok.mpr found,
        ok_bind, listed, ok_bind]
      refine ⟨_, rfl, ?_⟩
      rw [map_cons, same, take_succ_cons, map_cons]
      exact congrArg (· :: _) (congrArg (Option.map Process.pid) record).symm

structure ListLedger where
  kernel : Kernel
  live : Set Nat

/-- The list is walked in both directions through the live processes, and the functions that walk it
return: `find_process` a live process with the number if there is one, `process_list` the numbers of
the first ones. -/
def ListLedger.Exact (l : ListLedger) : Prop :=
  ∃ nodes, IsList l.kernel.nextProcess l.kernel.prevProcess 0 l.kernel.firstProcess l.kernel.lastProcess nodes ∧
    (∀ p, p ∈ nodes ↔ p ∈ l.live) ∧
    (∀ pid, ∃ p, findProcess l.kernel pid = .ok p ∧
      (p ∈ l.live ∧ l.kernel.pidAt p = some pid ∨ p = 0 ∧ ∀ q ∈ l.live, l.kernel.pidAt q ≠ some pid)) ∧
    ∀ count, ∃ entries, processList l.kernel count = .ok entries ∧
      entries.map (fun entry => some entry.1) = (nodes.take count).map l.kernel.pidAt

/-- What the runs keep: the list, addresses for its nodes, a main task for each, and no records apart
from it. -/
structure ListLedger.Kept (l : ListLedger) (nodes : List Nat) : Prop where
  list : IsList l.kernel.nextProcess l.kernel.prevProcess 0 l.kernel.firstProcess l.kernel.lastProcess nodes
  live : ∀ p, p ∈ nodes ↔ p ∈ l.live
  addresses : ∀ p ∈ nodes, p < 2 ^ 64
  mains : ∀ p ∈ nodes, ∃ m, l.kernel.mainOf p = some m ∧ l.kernel.tasks m ≠ none
  records : ∀ p ∉ nodes, l.kernel.processes p = none

theorem ListLedger.Kept.exact (kept : l.Kept nodes) : l.Exact := by
  obtain ⟨list, live, addresses, mains, -⟩ := kept
  refine ⟨nodes, list, live, fun pid => ?_, fun count => processList_walk list.forward mains⟩
  have enough : nodes.length < 2 ^ 64 := by
    -- the null pointer is an address that is not used
    have nodup : (0 :: nodes).Nodup := nodup_cons.mpr ⟨list.forward.null_notMem, list.nodup⟩
    exact length_le_of_nodup nodup fun p mem => by
      rcases mem_cons.mp mem with rfl | mem
      · decide
      · exact addresses p mem
  obtain ⟨p, found, res⟩ := findProcess_walk list.forward enough
  refine ⟨p, found, ?_⟩
  simpa only [live] using res

/-- The ends of the list, the links in it and the main tasks are as before, and no record of a task is
gone. -/
structure SameList (k k' : Kernel) : Prop where
  listed : ∀ q, (k'.processes q).map Process.listed = (k.processes q).map Process.listed
  firstProcess : k'.firstProcess = k.firstProcess
  lastProcess : k'.lastProcess = k.lastProcess
  tasks : ∀ t, k.tasks t ≠ none → k'.tasks t ≠ none

theorem SameList.refl (k : Kernel) : SameList k k := ⟨fun _ => rfl, rfl, rfl, fun _ found => found⟩

theorem SameList.trans {k'' : Kernel} (first : SameList k k') (second : SameList k' k'') : SameList k k'' :=
  ⟨fun q => (second.listed q).trans (first.listed q), second.firstProcess.trans first.firstProcess,
    second.lastProcess.trans first.lastProcess, fun t found => second.tasks t (first.tasks t found)⟩

theorem Frame.sameList (frame : Frame k k') : SameList k k' := by
  refine ⟨fun q => by rw [frame.processes], frame.firstProcess, frame.lastProcess, fun t found missing => found ?_⟩
  have same := frame.tasks t
  rw [missing] at same
  exact map_eq_none_iff.mp same.symm

theorem Fills.sameList (fills : Fills k k') : SameList k k' := by
  refine ⟨fills.listed, ?_, ?_, fun t found => fills.sched.2 ▸ found⟩
  · rw [fills.others]
  · rw [fills.others]

theorem map_listed {β : Type} (view : Nat × Nat × Nat × Nat → β)
    (listed : ∀ q, (k'.processes q).map Process.listed = (k.processes q).map Process.listed) (q : Nat) :
    (k'.processes q).map (fun process => view process.listed) = (k.processes q).map fun process => view process.listed := by
  have same := congrArg (Option.map view) (listed q)
  rwa [Option.map_map, Option.map_map] at same

theorem SameList.views (same : SameList k k') : k'.nextProcess = k.nextProcess ∧ k'.prevProcess =
    k.prevProcess ∧ k'.mainOf = k.mainOf :=
  ⟨funext (map_listed (fun view => view.2.2.1) same.listed), funext (map_listed (fun view => view.2.2.2) same.listed),
    funext (map_listed (fun view => view.2.1) same.listed)⟩

private theorem ListLedger.Kept.same (kept : l.Kept nodes) (same : SameList l.kernel k') : ListLedger.Kept ⟨k', l.live⟩ nodes := by
  obtain ⟨next, prev, mains⟩ := same.views
  refine ⟨?_, kept.live, kept.addresses, fun p mem => ?_, fun p apart => ?_⟩
  · rw [next, prev, same.firstProcess, same.lastProcess]
    exact kept.list
  · obtain ⟨m, main, found⟩ := kept.mains p mem
    exact ⟨m, (congrFun mains p).trans main, same.tasks m found⟩
  · have listed := same.listed p
    rw [kept.records p apart] at listed
    exact Option.map_eq_none_iff.mp listed

theorem processExit_sameList {code : Nat} (ret : processExit k code = .ok k') : SameList k k' := by
  obtain ⟨task, mid, -, killed, scheduled⟩ := of_bind₂ ret
  exact ((processKill_cascade killed).2.trans (schedule_sched scheduled).2).sameList

theorem processWait_sameList {waiting : Waiting} (ret : processWait k pid = .ok (k', waiting)) : SameList k k' := by
  obtain ⟨p, -, ret⟩ := of_bind ret
  split at ret
  · obtain ⟨rfl, -⟩ := ok_inj ret
    exact .refl k
  · obtain ⟨process, -, ret⟩ := of_bind ret
    split at ret
    · obtain ⟨rfl, -⟩ := ok_inj ret
      exact .refl k
    · obtain ⟨noted, blocked, written, block, ret⟩ := of_bind₂ ret
      obtain ⟨after, scheduled, ret⟩ := of_bind ret
      obtain ⟨rfl, -⟩ := ok_inj ret
      have fills : Fills k noted := .update written fun _ => rfl
      exact fills.sameList.trans ((taskSetBlocked_sched block).2.trans (schedule_sched scheduled).2).sameList

theorem updateTask_records {write : Task → Task} (ret : k.updateTask t write = .ok k') (u : Nat) :
    k.tasks u ≠ none → k'.tasks u ≠ none := by
  obtain ⟨task, found, rfl⟩ := updateTask_eq_ok.mp ret
  intro exists_
  rw [setTask_tasks]
  by_cases same : u = t
  · simp [same]
  · rwa [update_of_ne same]

theorem schedulerAdd_records (ret : schedulerAdd k t = .ok k') (u : Nat) (found : k.tasks u ≠ none) : k'.tasks u ≠ none := by
  unfold schedulerAdd at ret
  split at ret
  · exact updateTask_records ret u found
  · obtain ⟨head, mid, -, first, ret⟩ := of_bind₂ ret
    obtain ⟨head, mid', -, second, ret⟩ := of_bind₂ ret
    exact updateTask_records ret u (updateTask_records second u (updateTask_records first u found))

theorem createProcess_appends
    (list : IsList k.nextProcess k.prevProcess 0 k.firstProcess k.lastProcess nodes) (fresh : p ∉ nodes) (nonnull : p ≠ 0)
    (ret : createProcess k p = .ok k') : IsList k'.nextProcess k'.prevProcess 0 k'.firstProcess k'.lastProcess (nodes ++ [p]) := by
  have apart : p ≠ k.lastProcess := by
    rintro rfl
    exact fresh (mem_reverse.mp (list.backward.head_mem nonnull))
  rcases createProcess_ok apart ret with ⟨none, rfl⟩ | ⟨last, some, found, rfl⟩
  · obtain rfl : nodes = [] := reverse_eq_nil_iff.mp (list.backward.eq_nil_iff.mpr none)
    exact .single nonnull (by simp [nextProcess, newProcess]) (by simp [prevProcess, newProcess])
  · have appended := list.append fresh nonnull some
    have next : update (update k.nextProcess p (Option.some 0)) k.lastProcess (Option.some p) =
        nextProcess { (k.setProcess p { newProcess k with prev := k.lastProcess }).setProcess k.lastProcess
          { last with next := p } with nextPid := Word.u32 (k.nextPid + 1), lastProcess := p } := by
      funext q
      by_cases atLast : q = k.lastProcess
      · simp [nextProcess, atLast]
      · by_cases here : q = p
        · simp [nextProcess, here, apart, newProcess]
        · simp [nextProcess, atLast, here]
    have prev : update k.prevProcess p (Option.some k.lastProcess) =
        prevProcess { (k.setProcess p { newProcess k with prev := k.lastProcess }).setProcess k.lastProcess
          { last with next := p } with nextPid := Word.u32 (k.nextPid + 1), lastProcess := p } := by
      funext q
      by_cases atLast : q = k.lastProcess
      · simp [prevProcess, atLast, apart.symm, found]
      · by_cases here : q = p
        · simp [prevProcess, here, apart]
        · simp [prevProcess, atLast, here]
    rw [next, prev] at appended
    exact appended

theorem processExec_list {space : AddressSpace} {stdIn stdOut : Int}
    (list : IsList k.nextProcess k.prevProcess 0 k.firstProcess k.lastProcess nodes) (fresh : p ∉ nodes) (nonnull : p ≠ 0)
    (ret : processExec k t p space stdIn stdOut = .ok (k', pid)) :
    IsList k'.nextProcess k'.prevProcess 0 k'.firstProcess k'.lastProcess (nodes ++ [p]) := by
  obtain ⟨vmm, listed, process, filled, -, created, found, fills, add⟩ := processExec_ok ret
  have appended := createProcess_appends (k := setTask { k with nextId := _, vmm := vmm } t _) list fresh nonnull created
  obtain ⟨next, prev, -⟩ := fills.sameList.views
  have first := fills.sameList.firstProcess
  have last := fills.sameList.lastProcess
  have written {β : Type} (view : Process → β) (same : view { process with mainTask := t } = view process) :
      (fun q => ((listed.setProcess p { process with mainTask := t }).processes q).map view) = fun q => (listed.processes q).map view := by
    funext q
    by_cases here : q = p
    · simp [here, found, same]
    · simp [here]
  rw [schedulerAdd_others add]
  have nextSame : filled.nextProcess = listed.nextProcess := next.trans (written Process.next rfl)
  have prevSame : filled.prevProcess = listed.prevProcess := prev.trans (written Process.prev rfl)
  have whole : IsList filled.nextProcess filled.prevProcess 0 filled.firstProcess filled.lastProcess (nodes ++ [p]) := by
    rw [nextSame, prevSame, first, last]
    exact appended
  exact whole

theorem ListLedger.Kept.delete (kept : l.Kept nodes) {live : Set Nat}
    (ret : processDelete l.kernel p = .ok k') : ¬ListLedger.Exact ⟨k', live⟩ := by
  obtain ⟨found, tasks, rfl⟩ := processDelete_ok ret
  rintro ⟨nodes', list, -⟩
  have listed : p ∈ nodes := by_contra fun apart => found (kept.records p apart)
  refine kept.list.forward.blocked listed ?_ (fun q other => ?_) nodes' list.forward
  · simp [nextProcess]
  · simp [nextProcess, other]

inductive ListCall where
  | exec (p : Nat)
  | exit
  | wait
  | resume (p : Nat)
  | delete (p : Nat)
  | other
  deriving DecidableEq, Repr

/-- The calls that free a process. A call of `process_wait` does so once it goes on. -/
def ListCall.Frees : ListCall → Prop
  | .resume _ | .delete _ => True
  | .exec _ | .exit | .wait | .other => False

/-- One call. What else happens does not touch the list and frees no task. -/
inductive ListStep : ListCall → ListLedger → ListLedger → Prop
  | exec {l : ListLedger} {k' : Kernel} {t p pid : Nat} {space : AddressSpace} {stdIn stdOut : Int}
      (task : FreshBlock l.kernel t) (unused : l.kernel.processes p = none) (nonnull : p ≠ 0) (address : p < 2 ^ 64)
      (returned : processExec l.kernel t p space stdIn stdOut = .ok (k', pid)) :
      ListStep (.exec p) l ⟨k', insert p l.live⟩
  | exit {l : ListLedger} {k' : Kernel} {code : Nat} (returned : processExit l.kernel code = .ok k') :
      ListStep .exit l ⟨k', l.live⟩
  | wait {l : ListLedger} {k' : Kernel} {pid : Nat} {waiting : Waiting}
      (returned : processWait l.kernel pid = .ok (k', waiting)) : ListStep .wait l ⟨k', l.live⟩
  | resume {l : ListLedger} {k' : Kernel} {p code : Nat} (returned : processWaitResume l.kernel p = .ok (k', code)) :
      ListStep (.resume p) l ⟨k', l.live \ {p}⟩
  | delete {l : ListLedger} {k' : Kernel} {p : Nat} (returned : processDelete l.kernel p = .ok k') :
      ListStep (.delete p) l ⟨k', l.live \ {p}⟩
  | other {l : ListLedger} {k' : Kernel} (same : SameList l.kernel k') : ListStep .other l ⟨k', l.live⟩

theorem ListLedger.Kept.exec (kept : l.Kept nodes) {space : AddressSpace}
    {stdIn stdOut : Int} (unused : l.kernel.processes p = none) (nonnull : p ≠ 0) (address : p < 2 ^ 64)
    (ret : processExec l.kernel t p space stdIn stdOut = .ok (k', pid)) : ListLedger.Kept ⟨k', insert p l.live⟩ (nodes ++ [p]) := by
  have fresh : p ∉ nodes := fun mem => by
    obtain ⟨m, main, -⟩ := kept.mains p mem
    rw [mainOf, unused] at main
    cases main
  obtain ⟨⟨base, record, -, tasks, -, add⟩, mains⟩ := processExec_enters ret
  have others {q : Nat} (other : q ≠ p) : k'.mainOf q = l.kernel.mainOf q :=
    (mains q).trans (update_of_ne other ..)
  have found (u : Nat) (either : u = t ∨ l.kernel.tasks u ≠ none) : k'.tasks u ≠ none := by
    refine schedulerAdd_records add u ?_
    rw [setTask_tasks, tasks]
    by_cases same : u = t
    · simp [same]
    · rw [update_of_ne same]
      exact either.resolve_left same
  refine ⟨processExec_list kept.list fresh nonnull ret, fun q => ?_, fun q mem => ?_, fun q mem => ?_, fun q apart => ?_⟩
  · rw [mem_append, mem_singleton, kept.live q, Set.mem_insert_iff, or_comm]
  · rcases mem_append.mp mem with old | new
    · exact kept.addresses q old
    · exact mem_singleton.mp new ▸ address
  · rcases mem_append.mp mem with old | new
    · obtain ⟨m, main, there⟩ := kept.mains q old
      exact ⟨m, (others fun same => fresh (same ▸ old)).trans main, found m (.inr there)⟩
    · obtain rfl := mem_singleton.mp new
      exact ⟨t, (mains q).trans (update_self ..), found t (.inl rfl)⟩
  · rw [mem_append, mem_singleton, not_or] at apart
    have none : k'.mainOf q = .none := by
      rw [others apart.2, mainOf, kept.records q apart.1, map_none]
    exact map_eq_none_iff.mp none

private theorem ListStep.kept {call : ListCall} {l' : ListLedger} (kept : l.Kept nodes)
    (step : ListStep call l l') (keeps : ¬call.Frees) : ∃ nodes', l'.Kept nodes' := by
  cases step with
  | @exec _ k' t p _ _ _ _ _ unused nonnull address ret => exact ⟨nodes ++ [p], kept.exec unused nonnull address ret⟩
  | exit ret => exact ⟨nodes, kept.same (processExit_sameList ret)⟩
  | wait ret => exact ⟨nodes, kept.same (processWait_sameList ret)⟩
  | resume => exact absurd trivial keeps
  | delete => exact absurd trivial keeps
  | other same => exact ⟨nodes, kept.same same⟩

private theorem ListStep.frees {call : ListCall} {l' : ListLedger} (kept : l.Kept nodes)
    (step : ListStep call l l') (frees : call.Frees) : ¬l'.Exact := by
  cases step with
  | resume ret => exact kept.delete (processWaitResume_ok ret).2
  | delete ret => exact kept.delete ret
  | exec => cases frees
  | exit => cases frees
  | wait => cases frees
  | other => cases frees

structure Kernel.NoProcess (k : Kernel) : Prop where
  first : k.firstProcess = 0
  last : k.lastProcess = 0
  records : ∀ p, k.processes p = none

/-- The list is exact in every state of every run that frees no process, and the first call that frees
one ends that. -/
theorem process_list_exact_until_free {l : ListLedger} (start : k.NoProcess)
    (run : ReflTransGen (fun l l' => ∃ call, ListStep call l l' ∧ ¬call.Frees) ⟨k, ∅⟩ l) :
    l.Exact ∧ ∀ call l', ListStep call l l' → (l'.Exact ↔ ¬call.Frees) := by
  have empty : ListLedger.Kept ⟨k, ∅⟩ [] :=
    ⟨⟨nodup_nil, start.first, start.last⟩, fun _ => ⟨nofun, nofun⟩, nofun, nofun, fun p _ => start.records p⟩
  obtain ⟨nodes, kept⟩ := invariant_of_run (fun l => ∃ nodes, l.Kept nodes)
    (fun _ _ ⟨_, kept⟩ ⟨_, step, keeps⟩ => step.kept kept keeps) run ⟨[], empty⟩
  refine ⟨kept.exact, fun call l' step => ⟨fun exact frees => step.frees kept frees exact, fun keeps => ?_⟩⟩
  obtain ⟨nodes', kept'⟩ := step.kept kept keeps
  exact kept'.exact

theorem emptyKernel_noProcess : emptyKernel.NoProcess := ⟨rfl, rfl, fun _ => rfl⟩

theorem schedulerRun_sameList (ret : schedulerRun k = .ok k') : SameList k k' := by
  obtain ⟨after, scheduled, ret⟩ := of_bind ret
  split at ret
  · cases ret
  · obtain rfl := Except.ok.inj ret
    have same := (schedule_sched scheduled).2.sameList
    exact ⟨same.listed, same.firstProcess, same.lastProcess, same.tasks⟩

/-- A parent waits for its child, and the child exits. Once the parent goes on, `find_process` meets the
freed record. -/
theorem parent_frees_child : ∃ l, ReflTransGen (fun l l' => ∃ call, ListStep call l l' ∧ ¬call.Frees) ⟨emptyKernel, ∅⟩ l ∧
    ∃ l', ListStep (.resume 0x40) l l' ∧ findProcess l'.kernel 3 = .error (dangling 0x40) := by
  have run : (processExec emptyKernel 0x20 0x10 bootVmm.kernelSpace (-1) (-1) >>= fun (k₁, _) =>
      schedulerRun k₁ >>= fun k₂ => processExec k₂ 0x50 0x40 bootVmm.kernelSpace (-1) (-1) >>= fun (k₃, _) =>
      processWait k₃ 2 >>= fun (k₄, _) => processExit k₄ 0 >>= fun k₅ => processWaitResume k₅ 0x40 >>= fun (k₆, _) =>
      pure ((k₂.tasks 0x50).isNone, (k₂.processes 0x40).isNone, findProcess k₆ 3)) =
      .ok (true, true, .error (dangling 0x40)) := by
    decide +kernel
  obtain ⟨⟨k₁, pid₁⟩, parent, rest⟩ := of_bind run
  obtain ⟨k₂, ⟨k₃, pid₂⟩, started, child, rest⟩ := of_bind₂ rest
  obtain ⟨⟨k₄, waiting⟩, waits, rest⟩ := of_bind rest
  obtain ⟨k₅, ⟨k₆, code⟩, exits, resumes, seen⟩ := of_bind₂ rest
  simp only [ok_pair, Prod.mk.injEq, isNone_iff_eq_none] at seen
  obtain ⟨unusedTask, unused, freed⟩ := seen
  have created : ReflTransGen (fun l l' => ∃ call, ListStep call l l' ∧ ¬call.Frees) ⟨emptyKernel, ∅⟩ ⟨k₂, insert 0x10 ∅⟩ :=
    .tail (.single ⟨.exec 0x10, .exec ⟨rfl, by decide, by decide⟩ rfl (by decide) (by decide) parent, id⟩)
      ⟨.other, .other (schedulerRun_sameList started), id⟩
  have waited := (created.tail
    ⟨.exec 0x40, .exec ⟨unusedTask, by decide, by decide⟩ unused (by decide) (by decide) child, id⟩).tail
    ⟨.wait, .wait waits, id⟩
  exact ⟨_, waited.tail ⟨.exit, .exit exits, id⟩, _, .resume resumes, freed⟩

/-- The record of the child is in the list after it has been freed. -/
theorem freed_child_in_list : emptyKernel.NoProcess ∧
    ∃ l, ReflTransGen (fun l l' => ∃ call, ListStep call l l') ⟨emptyKernel, ∅⟩ l ∧
      findProcess l.kernel 3 = .error (dangling 0x40) ∧ ¬l.Exact := by
  obtain ⟨l, run, l', step, freed⟩ := parent_frees_child
  refine ⟨emptyKernel_noProcess, l', ?_, freed, ?_⟩
  · have calls := ReflTransGen.mono (p := fun l l' => ∃ call, ListStep call l l') (fun _ _ ⟨call, step, _⟩ => ⟨call, step⟩) _ _ run
    exact calls.tail ⟨.resume 0x40, step⟩
  · rintro ⟨-, -, -, finds, -⟩
    obtain ⟨p, found, -⟩ := finds 3
    rw [freed] at found
    cases found

/-- The list is exact until the parent goes on. -/
theorem child_listed_until_freed : ∃ l l', ListStep (.resume 0x40) l l' ∧ l.Exact ∧ ¬l'.Exact := by
  obtain ⟨l, run, l', step, -⟩ := parent_frees_child
  obtain ⟨exact, freed⟩ := process_list_exact_until_free emptyKernel_noProcess run
  exact ⟨l, l', step, exact, fun still => (freed _ l' step).mp still trivial⟩

end Xos.Scheduler
