import Xos.Exec.Process

/-!
# The arguments of a program

The strings are pushed one below the other from the top of the stack. What does not fit goes to wherever the pages below
the stack lead, which is the first frame of memory when there are none, and never a frame of the stack.
-/
namespace Xos.Exec

open Memory Word Lib Outcome Bytes List
open Scheduler (Kernel userStackTop userStackPages taskCreateUserFromSpace)

def stackSize : Nat := userStackPages * 4096

def stackBase : Nat := userStackTop - stackSize

theorem stackSize_eq : stackSize = 16384 := rfl

theorem stackBase_add : stackBase + stackSize = userStackTop := rfl

theorem stackBase_mod : stackBase % 4096 = 0 := by decide

theorem userStackTop_le : userStackTop ≤ 2 ^ 47 := by decide

theorem stackSize_le : 2 * stackSize ≤ stackBase := by decide

theorem initialUserRsp_eq : initialUserRsp = userStackTop - 8 := by decide +kernel

def argumentSize (s : List Byte) : Nat := ((cString s).length + 7) / 8 * 8

/-- What the first `n` strings take on the stack. -/
def argumentsSize (argv : Nat → List Byte) : Nat → Nat
  | 0 => 0
  | n + 1 => argumentsSize argv n + argumentSize (argv n)

/-- The strings and the array of pointers fit into the stack, below the 8 bytes that are left free at its top. -/
def ArgumentsFit (n : Nat) (argv : Nat → List Byte) : Prop := 8 + argumentsSize argv n + 8 * (n + 1) ≤ stackSize

instance (n : Nat) (argv : Nat → List Byte) : Decidable (ArgumentsFit n argv) :=
  inferInstanceAs (Decidable (8 + argumentsSize argv n + 8 * (n + 1) ≤ stackSize))

variable {n : Nat}

section Sizes

variable {argv : Nat → List Byte}

theorem argumentSize_bounds (s : List Byte) : (cString s).length ≤ argumentSize s ∧ 8 ≤ argumentSize s ∧ argumentSize s % 8 = 0 := by
  have pos : 1 ≤ (cString s).length := by simp [cString]
  unfold argumentSize
  omega

theorem argumentsSize_lt (argv : Nat → List Byte) {i : Nat} (before : i < n) :
    argumentsSize argv i + argumentSize (argv i) ≤ argumentsSize argv n := by
  induction n with
  | zero => omega
  | succ n ih =>
    rw [argumentsSize]
    rcases Nat.lt_succ_iff_lt_or_eq.mp before with earlier | rfl
    · omega
    · exact le_rfl

end Sizes

/-- The stack of a main task is in consecutive frames from `phys` on. -/
def Backed (v : Vmm) (space : AddressSpace) (phys : Nat) : Prop :=
  ∀ i, i < stackSize → vmmVirtToPhys v space (stackBase + i) = phys + i

variable {space : AddressSpace}

/-- The pages below the stack lead elsewhere. -/
def Apart (v : Vmm) (space : AddressSpace) (phys : Nat) : Prop :=
  ∀ virt, virt < stackBase → vmmVirtToPhys v space virt < phys ∨ phys + stackSize ≤ vmmVirtToPhys v space virt

theorem taskCreateUserFromSpace_stack {k k' : Kernel} {t : Nat} {level : Nat → Nat}
    (wf : k.vmm.WellFormed upperHalf level) (root : level space.pml4 = 4) (inUse : InUse k.vmm space.pml4)
    (first : k.vmm.pmm.bit 0 = true) (ret : taskCreateUserFromSpace k t space 0 = .ok k') :
    ∃ f, f + userStackPages ≤ k.vmm.pmm.pageCount ∧ Window k.vmm.pmm.isFree f userStackPages ∧ Backed k'.vmm space (f * 4096) ∧
      Apart k'.vmm space (f * 4096) := by
  obtain ⟨task, -, ret⟩ := Kernel.of_updateTask ret
  obtain ⟨⟨pmm, phys⟩, taken, rest⟩ := of_bind ret
  obtain ⟨vmm, mapped, res⟩ := of_bind rest
  obtain ⟨f, fits, free, rfl, place⟩ := pmmAllocPages_ok wf.valid taken
  have pages : userStackPages = 4 := rfl
  have four : u32 userStackPages = 4 := by decide +kernel
  have base : sub64 (sub64 userStackTop (u64 (userStackPages * pageSize * 0))) (userStackPages * pageSize) = stackBase := by decide +kernel
  have top := stackBase_add
  have size := stackSize_eq
  rw [four] at fits free mapped
  rw [base] at mapped
  obtain ⟨level', wf', maps⟩ := (wf.allocated f 4 fits).mapPages_ok root mapped
  have last := wf.fresh (f + 3) (by omega) (by simpa [Pmm.isFree] using free (f + 3) (by omega) (by omega))
  have entries : Vmm.writtenRange stackBase phys (pagePresent ||| pageWritable ||| pageUser) userStackPages = Vmm.rangeMap stackBase phys 4 :=
    Vmm.writtenRange_eq (by omega) (by omega) (by decide)
  have root' : level' space.pml4 = 4 := by rw [maps.levels _ (by omega), root]
  have aligned := stackBase_mod
  have low : stackBase + 4096 * 4 ≤ 2 ^ 48 := by decide
  cases res
  refine ⟨f, fits, free, fun i inside => ?_, fun virt below => ?_⟩
  · have frame : vmm.frameAt space.pml4 (stackBase + i) = some (phys + 4096 * (i / 4096)) := by
      rw [maps.here, entries, Vmm.rangeMap_byte aligned low (by omega), Option.some_or]
    rw [wf'.tabled.virtToPhys_of_frame root' frame]
    omega
  · -- no frame of the stack was in use before
    have apart (page : Nat) (used : k.vmm.pmm.bit page = true) : page < f ∨ f + 4 ≤ page := by
      by_contra inside
      have clear := free page (by omega) (by omega)
      simp [Pmm.isFree, used] at clear
    cases mapped : vmm.frameAt space.pml4 virt with
    | none =>
      rw [wf'.tabled.virtToPhys root', mapped]
      have null := apart 0 first
      dsimp only
      omega
    | some frame =>
      rw [wf'.tabled.virtToPhys_of_frame root' mapped]
      have multiple := Vmm.frameAt_aligned mapped
      have other : Vmm.rangeMap stackBase phys 4 (pageOf virt) = none := by
        refine Vmm.rangeMap_eq_none.mpr fun i inside => ?_
        unfold pageOf
        omega
      have lower : ¬upperHalf (pml4Index virt) := by
        have bound := userStackTop_le
        rw [upperHalf, pml4Index, tableIndex_val]
        omega
      rw [maps.here, entries, other, Option.none_or] at mapped
      have used := apart _ (inUse virt frame lower mapped)
      omega

section Push

variable {v : Vmm} {space : AddressSpace} {argv : Nat → List Byte} {phys : Nat}

section

variable (backed : Backed v space phys)
include backed

theorem Backed.translate {virt : Nat} (low : stackBase ≤ virt) (high : virt < userStackTop) :
    vmmVirtToPhys v space virt = phys + (virt - stackBase) := by
  have top := stackBase_add
  have here := backed (virt - stackBase) (by omega)
  rwa [Nat.add_sub_cancel' low] at here

omit backed in
theorem and_not_seven (bound : n < 2 ^ 64) : n &&& 0xFFFFFFFFFFFFFFF8 = n / 8 * 8 := by
  have field := and_field n 61 3
  rw [show (2 ^ 61 - 1) <<< 3 = 0xFFFFFFFFFFFFFFF8 from rfl] at field
  omega

omit backed in
theorem and_not_fifteen (bound : n < 2 ^ 64) : n &&& 0xFFFFFFFFFFFFFFF0 = n / 16 * 16 := by
  have field := and_field n 60 4
  rw [show (2 ^ 60 - 1) <<< 4 = 0xFFFFFFFFFFFFFFF0 from rfl] at field
  omega

omit backed in
theorem pushToUserStack_pointer (v : Vmm) (space : AddressSpace) {usp : Nat} (s : List Byte) (bytes : Bytes) (aligned : usp % 8 = 0)
    (room : argumentSize s ≤ usp) (top : usp ≤ userStackTop) :
    (pushToUserStack v space usp (cString s) bytes).1 = usp - argumentSize s := by
  have sizes := argumentSize_bounds s
  have bound := userStackTop_le
  rw [pushToUserStack, u64_of_lt (by omega), sub64_of_le (by omega), and_not_seven (by omega)]
  unfold argumentSize at *
  omega

theorem pushToUserStack_eq {usp : Nat} (s : List Byte) (bytes : Bytes) (aligned : usp % 8 = 0)
    (room : stackBase + argumentSize s ≤ usp) (top : usp ≤ userStackTop) : pushToUserStack v space usp (cString s) bytes =
      (usp - argumentSize s, bytes.copy (phys + (usp - argumentSize s - stackBase)) (cString s)) := by
  have sizes := argumentSize_bounds s
  have pointer := pushToUserStack_pointer v space s bytes aligned (by omega) top
  refine Prod.ext pointer ?_
  show bytes.copy (vmmVirtToPhys v space (pushToUserStack v space usp (cString s) bytes).1) _ = _
  rw [pointer, backed.translate (by omega) (by omega)]

/-- What the loop does with `n` strings: the pointer to each, and its bytes. -/
structure Strings (argv : Nat → List Byte) (phys n : Nat) (s r : Pushed) : Prop where
  usp : r.usp = s.usp - argumentsSize argv n
  argvUser : r.argvUser = (range n).map (fun i => r.usp + argumentsSize argv i) ++ s.argvUser
  outside : ∀ a, a < phys + (r.usp - stackBase) ∨ phys + (s.usp - stackBase) ≤ a → r.bytes a = s.bytes a
  copies : ∀ i, i < n → ∀ k, k < (cString (argv i)).length →
    r.bytes (phys + (r.usp + argumentsSize argv i - stackBase) + k) = (cString (argv i)).getD k 0

theorem pushStrings_layout (argv : Nat → List Byte) (n : Nat) (s : Pushed) (aligned : s.usp % 8 = 0)
    (room : stackBase + argumentsSize argv n ≤ s.usp) (top : s.usp ≤ userStackTop) :
    Strings argv phys n s (pushStrings v space argv n s) := by
  -- on the number of strings that are left: the last of them comes next
  induction n generalizing s with
  | zero => exact ⟨rfl, rfl, fun _ _ => rfl, fun i inside => absurd inside (Nat.not_lt_zero i)⟩
  | succ n ih =>
    have sizes := argumentSize_bounds (argv n)
    have total : argumentsSize argv (n + 1) = argumentsSize argv n + argumentSize (argv n) := rfl
    have pushed := pushToUserStack_eq backed (argv n) s.bytes aligned (by omega) top
    rw [pushStrings, pushed]
    have rest := ih ⟨s.usp - argumentSize (argv n), (s.usp - argumentSize (argv n)) :: s.argvUser,
      s.bytes.copy (phys + (s.usp - argumentSize (argv n) - stackBase)) (cString (argv n))⟩ (by dsimp only; omega) (by dsimp only; omega)
      (by dsimp only; omega)
    generalize pushStrings v space argv n _ = r at rest ⊢
    obtain ⟨usp, argvUser, outside, copies⟩ := rest
    dsimp only at usp argvUser outside
    constructor
    · omega
    · rw [argvUser, range_succ, map_append, append_assoc, map_singleton, singleton_append]
      congr 2
      omega
    · intro a apart
      rw [outside a (by omega), copy_outside _ _ (by omega)]
    · intro i inside k within
      rcases Nat.lt_succ_iff_lt_or_eq.mp inside with earlier | rfl
      · exact copies i earlier k within
      · have place : phys + (r.usp + argumentsSize argv i - stackBase) = phys + (s.usp - argumentSize (argv i) - stackBase) := by omega
        rw [place, outside _ (by omega), copy_inside _ _ within]

def stringAddress (n : Nat) (argv : Nat → List Byte) (i : Nat) : Nat := userStackTop - 8 - argumentsSize argv n + argumentsSize argv i

def arrayAddress (n : Nat) (argv : Nat → List Byte) : Nat := (userStackTop - 8 - argumentsSize argv n - 8 * (n + 1)) / 16 * 16

def userView (v : Vmm) (space : AddressSpace) (bytes : Bytes) : Bytes := fun virt => bytes (vmmVirtToPhys v space virt)

theorem Backed.userView (bytes : Bytes) {virt : Nat} (low : stackBase ≤ virt) (high : virt < userStackTop) :
    userView v space bytes virt = bytes (phys + (virt - stackBase)) := by
  rw [Exec.userView, backed.translate low high]

omit backed in
theorem arrayAddress_bounds (fits : ArgumentsFit n argv) : stackBase ≤ arrayAddress n argv ∧
    arrayAddress n argv + 8 * (n + 1) ≤ userStackTop - 8 - argumentsSize argv n ∧ arrayAddress n argv % 16 = 0 := by
  have top := stackBase_add
  have aligned := stackBase_mod
  unfold ArgumentsFit at fits
  unfold arrayAddress
  omega

/-- What has been written when everything fits. -/
structure Written (v : Vmm) (space : AddressSpace) (n : Nat) (argv : Nat → List Byte) (bytes' : Bytes) : Prop where
  strings : ∀ i, i < n → (userView v space bytes').slice (stringAddress n argv i) (cString (argv i)).length = cString (argv i)
  pointers : ∀ i, i < n → (userView v space bytes').load (arrayAddress n argv + 8 * i) 8 = stringAddress n argv i
  null : (userView v space bytes').load (arrayAddress n argv + 8 * n) 8 = 0

theorem load_entry (fits : ArgumentsFit n argv) {values : List Nat} (length : values.length = n + 1)
    (bytes : Bytes) {j : Nat} (inside : j ≤ n) (bound : values.getD j 0 < 2 ^ 64) :
    (userView v space (bytes.copy (phys + (arrayAddress n argv - stackBase)) (values.flatMap (littleEndian 8)))).load
      (arrayAddress n argv + 8 * j) 8 = values.getD j 0 := by
  obtain ⟨low, high, -⟩ := arrayAddress_bounds fits
  have size : (values.flatMap (littleEndian 8)).length = 8 * (n + 1) := by
    simp [length_flatMap, length, Nat.mul_comm]
  have value := load_littleEndian (v := values.getD j 0)
    (m := userView v space (bytes.copy (phys + (arrayAddress n argv - stackBase)) (values.flatMap (littleEndian 8))))
    (a := arrayAddress n argv + 8 * j) (n := 8) fun q within => ?_
  · rw [value, show 256 ^ 8 = 2 ^ 64 from rfl, Nat.mod_eq_of_lt bound]
  · have place : phys + (arrayAddress n argv + 8 * j + q - stackBase) = phys + (arrayAddress n argv - stackBase) + (8 * j + q) := by omega
    rw [backed.userView _ (by omega) (by omega), place, copy_inside _ _ (by omega),
      getD_flatMap_littleEndian _ values (by omega) within]

omit backed in
theorem Strings.length_pointers {usp : Nat} {bytes : Bytes} {r : Pushed} (layout : Strings argv phys n ⟨usp, [0], bytes⟩ r) :
    r.argvUser.length = n + 1 := by
  simp [layout.argvUser]

omit backed in
theorem Strings.extent {usp : Nat} {bytes : Bytes} {r : Pushed} (layout : Strings argv phys n ⟨usp, [0], bytes⟩ r) :
    (r.argvUser.flatMap (littleEndian 8)).length = 8 * (n + 1) := by
  simp [length_flatMap, layout.length_pointers, Nat.mul_comm]

/-- The array starts below the last string. -/
theorem pushArguments_pointer (few : 8 * (n + 1) ≤ stackSize) (room : stackBase + argumentsSize argv n ≤ userStackTop - 8)
    (bytes : Bytes) : Strings argv phys n ⟨userStackTop - 8, [0], bytes⟩ (pushStrings v space argv n ⟨initialUserRsp, [0], bytes⟩) ∧
      (pushArguments v space n argv initialUserRsp bytes).1 = arrayAddress n argv := by
  have top := stackBase_add
  have multiple := stackBase_mod
  have size := stackSize_eq
  have bound := userStackTop_le
  have base := stackSize_le
  have layout := pushStrings_layout backed argv n ⟨userStackTop - 8, [0], bytes⟩ (by dsimp only; omega) room (Nat.sub_le _ _)
  rw [pushArguments, initialUserRsp_eq]
  refine ⟨layout, ?_⟩
  have usp := layout.usp
  dsimp only at usp ⊢
  rw [sub64_of_le (by omega), and_not_fifteen (by omega), usp, arrayAddress, Nat.mul_comm (n + 1) 8]

theorem pushArguments_written (fits : ArgumentsFit n argv) (bytes : Bytes) :
    (pushArguments v space n argv initialUserRsp bytes).1 = arrayAddress n argv ∧
      Written v space n argv (pushArguments v space n argv initialUserRsp bytes).2 := by
  obtain ⟨low, high, -⟩ := arrayAddress_bounds fits
  have top := stackBase_add
  have size := stackSize_eq
  have bound := userStackTop_le
  have few : 8 * (n + 1) ≤ stackSize := by
    unfold ArgumentsFit at fits
    omega
  have room : stackBase + argumentsSize argv n ≤ userStackTop - 8 := by omega
  obtain ⟨layout, array⟩ := pushArguments_pointer backed few room bytes
  refine ⟨array, ?_⟩
  show Written v space n argv (copy _ (vmmVirtToPhys v space (pushArguments v space n argv initialUserRsp bytes).1) _)
  rw [array, backed.translate low (by omega)]
  have length := layout.length_pointers
  have extent := layout.extent
  generalize pushStrings v space argv n _ = r at layout length extent ⊢
  obtain ⟨usp, argvUser, -, copies⟩ := layout
  dsimp only at usp argvUser ⊢
  refine ⟨fun i inside => ?_, fun i inside => ?_, ?_⟩
  · -- the strings are above the array
    have next := argumentsSize_lt argv inside
    have sizes := argumentSize_bounds (argv i)
    apply ext_getElem
    · rw [length_slice]
    · intro k _ within
      have place : phys + (stringAddress n argv i + k - stackBase) = phys + (r.usp + argumentsSize argv i - stackBase) + k := by
        unfold stringAddress
        omega
      have copied := copies i inside k within
      rw [getD_eq_getElem _ _ within] at copied
      have shown : ∀ (b : Bytes) (a n : Nat) (inside : k < (b.slice a n).length), (b.slice a n)[k] = b (a + k) := by
        intro b a n inside
        simp [slice]
      rw [shown, backed.userView _ (by unfold stringAddress; omega) (by unfold stringAddress; omega), place,
        copy_outside _ _ (by omega), copied]
  · have value : r.argvUser.getD i 0 = stringAddress n argv i := by
      rw [argvUser, getD_append _ _ _ _ (by simpa using inside)]
      simp [inside, usp, stringAddress]
    have next := argumentsSize_lt argv inside
    rw [load_entry backed fits length _ (by omega) (by rw [value, stringAddress]; omega), value]
  · have value : r.argvUser.getD n 0 = 0 := by
      rw [argvUser, getD_append_right _ _ _ _ (by simp)]
      simp
    rw [load_entry backed fits length _ le_rfl (by rw [value]; decide), value]

/-- The calls of `memcpy8` that `pushStrings` makes, each with the physical address that it starts at. -/
def stringCopies (v : Vmm) (space : AddressSpace) (argv : Nat → List Byte) : Nat → Pushed → List (Nat × List Byte)
  | 0, _ => []
  | i + 1, s =>
    let pushed := pushToUserStack v space s.usp (cString (argv i)) s.bytes
    (vmmVirtToPhys v space pushed.1, cString (argv i)) ::
      stringCopies v space argv i ⟨pushed.1, pushed.1 :: s.argvUser, pushed.2⟩

/-- All calls of `memcpy8` for the arguments. The array of pointers is the last. -/
def argumentCopies (v : Vmm) (space : AddressSpace) (argc : Nat) (argv : Nat → List Byte) (usp : Nat) (bytes : Bytes) :
    List (Nat × List Byte) :=
  stringCopies v space argv argc ⟨usp, [0], bytes⟩ ++ [(vmmVirtToPhys v space (pushArguments v space argc argv usp bytes).1,
    (pushStrings v space argv argc ⟨usp, [0], bytes⟩).argvUser.flatMap (littleEndian 8))]

def copyAll (copies : List (Nat × List Byte)) (bytes : Bytes) : Bytes := copies.foldl (fun b c => b.copy c.1 c.2) bytes

omit backed in
theorem pushStrings_copies (argv : Nat → List Byte) (n : Nat) (s : Pushed) :
    (pushStrings v space argv n s).bytes = copyAll (stringCopies v space argv n s) s.bytes := by
  induction n generalizing s with
  | zero => rfl
  | succ n ih => exact ih _

omit backed in
theorem pushArguments_copies (argv : Nat → List Byte) (n usp : Nat) (bytes : Bytes) :
    (pushArguments v space n argv usp bytes).2 = copyAll (argumentCopies v space n argv usp bytes) bytes := by
  rw [copyAll, argumentCopies, foldl_append]
  exact congrArg (fun b : Bytes => b.copy _ _) (pushStrings_copies argv n ⟨usp, [0], bytes⟩)

/-- A copy stays inside the frames of the stack. -/
def Within (phys : Nat) (c : Nat × List Byte) : Prop := phys ≤ c.1 ∧ c.1 + c.2.length ≤ phys + stackSize

theorem stringCopies_within (apart : Apart v space phys) (argv : Nat → List Byte) (n : Nat) (s : Pushed) (aligned : s.usp % 8 = 0)
    (low : stackBase ≤ s.usp) (top : s.usp ≤ userStackTop) :
    (∀ c ∈ stringCopies v space argv n s, Within phys c) ↔ stackBase + argumentsSize argv n ≤ s.usp := by
  induction n generalizing s with
  | zero => simpa [stringCopies, argumentsSize] using low
  | succ n ih =>
    have sizes := argumentSize_bounds (argv n)
    have base := stackSize_le
    have size := stackSize_eq
    have whole := stackBase_add
    rw [stringCopies, argumentsSize, forall_mem_cons]
    by_cases room : stackBase + argumentSize (argv n) ≤ s.usp
    · rw [pushToUserStack_eq backed (argv n) s.bytes aligned room top]
      dsimp only
      rw [backed.translate (by omega) (by omega), and_iff_right, ih _ (by dsimp only; omega) (by dsimp only; omega) (by dsimp only; omega)]
      · dsimp only
        omega
      · unfold Within
        dsimp only
        omega
    · -- the string is too long for the stack, or begins below it
      refine iff_of_false (fun within => ?_) (by omega)
      obtain ⟨first, last⟩ := within.1
      dsimp only at first last
      have short : argumentSize (argv n) ≤ (cString (argv n)).length + 7 := Nat.div_mul_le_self _ _
      have pointer := pushToUserStack_pointer v space (argv n) s.bytes aligned (by omega) top
      rw [pointer] at first last
      have below := apart (s.usp - argumentSize (argv n)) (by omega)
      omega

theorem argumentCopies_within (apart : Apart v space phys) (argv : Nat → List Byte) (few : 8 * (n + 1) ≤ stackSize) (bytes : Bytes) :
    (∀ c ∈ argumentCopies v space n argv initialUserRsp bytes, Within phys c) ↔ ArgumentsFit n argv := by
  have top := stackBase_add
  have size := stackSize_eq
  have multiple := stackBase_mod
  have strings := stringCopies_within backed apart argv n ⟨initialUserRsp, [0], bytes⟩
  rw [initialUserRsp_eq] at strings
  rw [argumentCopies, forall_mem_append, forall_mem_singleton, initialUserRsp_eq,
    strings (by dsimp only; omega) (by dsimp only; omega) (Nat.sub_le _ _), ← initialUserRsp_eq]
  constructor
  · rintro ⟨room, within⟩
    rw [initialUserRsp_eq] at room
    obtain ⟨layout, array⟩ := pushArguments_pointer backed few room bytes
    rw [array, Within, layout.extent] at within
    by_contra misfit
    have below : arrayAddress n argv < stackBase := by
      have base := stackSize_le
      unfold arrayAddress
      unfold ArgumentsFit at misfit
      omega
    have elsewhere := apart _ below
    omega
  · intro fits
    have room : stackBase + argumentsSize argv n ≤ userStackTop - 8 := by unfold ArgumentsFit at fits; omega
    obtain ⟨low, high, -⟩ := arrayAddress_bounds fits
    obtain ⟨layout, array⟩ := pushArguments_pointer backed few room bytes
    refine ⟨by rw [initialUserRsp_eq]; exact room, ?_⟩
    rw [array, backed.translate low (by omega), Within, layout.extent]
    dsimp only
    omega

end

end Push

/-- A program that starts here gets `n` arguments: an array of pointers to the strings with a null pointer at its end. The strings do not
overlap. -/
structure Passed (view : Bytes) (start : UserStart) (n : Nat) (argv : Nat → List Byte) : Prop where
  argc : start.startArgc = n
  aligned : start.startArgv % 16 = 0
  strings : ∀ i, i < n → view.slice (view.load (start.startArgv + 8 * i) 8) (cString (argv i)).length = cString (argv i)
  null : view.load (start.startArgv + 8 * n) 8 = 0
  disjoint : ∀ i j, i < j → j < n →
    view.load (start.startArgv + 8 * i) 8 + (cString (argv i)).length ≤ view.load (start.startArgv + 8 * j) 8

theorem Written.passed {v : Vmm} {userRsp : Nat} {argv : Nat → List Byte} {bytes' : Bytes}
    (written : Written v space n argv bytes') (fits : ArgumentsFit n argv) :
    Passed (userView v space bytes') ⟨n, arrayAddress n argv, userRsp⟩ n argv := by
  refine ⟨rfl, (arrayAddress_bounds fits).2.2, fun i inside => ?_, written.null, fun i j before inside => ?_⟩
  · rw [written.pointers i inside, written.strings i inside]
  · have next := argumentsSize_lt argv before
    have sizes := argumentSize_bounds (argv i)
    rw [written.pointers i (by omega), written.pointers j inside]
    unfold stringAddress
    omega

theorem vmmCreateAddressSpaceOn_lower {v v' : Vmm} {level : Nat → Nat} (wf : v.WellFormed upperHalf level)
    (kernel : level v.kernelSpace.pml4 = 4) (ret : vmmCreateAddressSpaceOn v = .ok (v', space)) :
    ∃ level', v'.WellFormed upperHalf level' ∧ level' space.pml4 = 4 ∧ InUse v' space.pml4 ∧
      ∀ page, v.pmm.bit page = true → v'.pmm.bit page = true := by
  obtain ⟨page, managed, clear, rfl, rfl⟩ := vmmCreateAddressSpaceOn_ok wf.valid ret
  obtain ⟨-, -, -, outside⟩ := wf.fresh page managed clear
  refine ⟨_, wf.newRoot kernel managed clear, Radix.ranked_self, fun virt frame lower mapped => ?_, fun other used => ?_⟩
  · -- there is nothing in the lower half
    have present := Vmm.frameAt_isSome mapped
    rw [Vmm.newRoot_self (fun same => by rw [same] at kernel; omega), if_neg lower] at present
    exact absurd rfl present
  · show (v.pmm.allocated page 1).bit other = true
    simp [used]

theorem argumentCount_le (argc : Int) (argv : Option (Nat → List Byte)) : argumentCount argc argv ≤ maxExecArgc := by
  unfold argumentCount maxExecArgc
  split
  · omega
  · split
    · omega
    · split <;> omega

/-- The bytes of a header of a segment that is to be loaded. -/
def ElfProgramHeader.bytes (ph : ElfProgramHeader) : List Byte :=
  littleEndian 4 1 ++ littleEndian 4 ph.flags ++ littleEndian 8 ph.offset ++ littleEndian 8 ph.vaddr ++ littleEndian 8 ph.vaddr ++
    littleEndian 8 ph.sizeFile ++ littleEndian 8 ph.sizeMem ++ littleEndian 8 4096

/-- A program with one segment. -/
def oneSegment (entry : Nat) (ph : ElfProgramHeader) (data : List Byte) : List Byte :=
  -- `class` to `version`, `section_offset` to `header_size` and the fields for sections are not read
  [0x7F, 0x45, 0x4C, 0x46] ++ replicate 20 0 ++ littleEndian 8 entry ++ littleEndian 8 64 ++ replicate 14 0 ++
    littleEndian 2 56 ++ littleEndian 2 1 ++ replicate 6 0 ++ ph.bytes ++ data

def smallProgram : List Byte := oneSegment 0x400000 ⟨5, 120, 0x400000, 1, 2⟩ [0xC3]

/-- The entry of a directory for a file `INIT`, which is as long as the small program. -/
def initEntry : List Byte :=
  [0x49, 0x4E, 0x49, 0x54, 0x20, 0x20, 0x20, 0x20, 0x20, 0x20, 0x20, 0x20] ++ replicate 14 0 ++ [0x03, 0, 0x79, 0, 0, 0]

/-- A disk with the small program in its root directory. The table is in sector 1, the directory in sector 2 and the program in sector 3. -/
def initDisk : Disk where
  volume :=
    { bpb := ⟨1, 1, 1, 1, 2⟩
      lbaStart := 0
      disk := fun lba => some fun i =>
        if lba = 1 then 0xFF else if lba = 2 then initEntry.getD i 0 else if lba = 3 then smallProgram.getD i 0 else 0 }
  stack := Fs.zeroStack
  sector := fun _ => 0
  tmp := fun _ => 0
  buf := fun _ => 0
  fuel := 3

/-- `/INIT`. -/
def initPath : List Byte := [0x2F, 0x49, 0x4E, 0x49, 0x54]

end Xos.Exec
