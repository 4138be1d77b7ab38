import Mathlib.Logic.Function.Basic
import Mathlib.Logic.Relation
import Xos.Lib.Pool

/-!
# The rings of the USB controller (`xhci.c`)

Whose an entry is shows in its cycle bit, the meaning of which changes with each lap. One entry must stay free, or the
link at the end is turned over before the controller has followed it.
-/
namespace Xos.Io

open Function Lib Relation List

/-- `trb_t`. -/
structure Trb where
  param : BitVec 64
  status : BitVec 32
  control : BitVec 32
  deriving DecidableEq, Repr

def ttNormal : BitVec 32 := 1

def ttLink : BitVec 32 := 6

def trbType (t : BitVec 32) : BitVec 32 := t <<< 10

def trbTc : BitVec 32 := 1 <<< 1

def trbIoc : BitVec 32 := 1 <<< 5

def getType (control : BitVec 32) : BitVec 32 := control >>> 10 &&& 0x3F

/-- The bit `TRB_C`, for the cycle state of the producer. -/
def cycle (pcs : Bool) : BitVec 32 := if pcs then 1 else 0

def Trb.marked (t : Trb) (pcs : Bool) : Trb := { t with control := t.control ||| cycle pcs }

/-- A ring with its physical address, and where and with which cycle state the driver goes on. -/
structure Ring where
  trbs : Nat → Trb
  phys : BitVec 64
  enq : Nat
  pcs : Bool

def linkTrb (phys : BitVec 64) (pcs : Bool) : Trb := ⟨phys, 0, trbType ttLink ||| trbTc ||| cycle pcs⟩

def Ring.push (size : Nat) (r : Ring) (t : Trb) : Ring :=
  let trbs := update r.trbs r.enq (t.marked r.pcs)
  if size - 1 ≤ r.enq + 1 then
    { r with trbs := update trbs (size - 1) (linkTrb r.phys r.pcs), enq := 0, pcs := !r.pcs }
  else { r with trbs := trbs, enq := r.enq + 1 }

def cmdRingSz : Nat := 64

def xferRingSz : Nat := 32

def cmdPush (r : Ring) (param : BitVec 64) (status control : BitVec 32) : Ring := r.push cmdRingSz ⟨param, status, control⟩

def ep0Push (r : Ring) (param : BitVec 64) (status control : BitVec 32) : Ring := r.push xferRingSz ⟨param, status, control⟩

def kbdPushOne (r : Ring) (bufPhys : BitVec 64) (maxPkt : BitVec 32) : Ring :=
  r.push xferRingSz ⟨bufPhys, maxPkt, trbType ttNormal ||| trbIoc⟩

def bulkOutPush (r : Ring) (phys : BitVec 64) (len : BitVec 32) : Ring :=
  r.push xferRingSz ⟨phys, len, trbType ttNormal ||| trbIoc⟩

def bulkInPush (r : Ring) (phys : BitVec 64) (len : BitVec 32) : Ring :=
  r.push xferRingSz ⟨phys, len, trbType ttNormal ||| trbIoc⟩

structure Consumer where
  idx : Nat
  ccs : Bool
  deriving DecidableEq, Repr

/-- A step of the controller, with the TRB that it takes, without the cycle bit; `none` when it waits. -/
def Consumer.step (c : Consumer) (r : Ring) : Option (Consumer × Option Trb) :=
  let t := r.trbs c.idx
  if t.control.getLsbD 0 ≠ c.ccs then none
  else if getType t.control = ttLink then
    some (⟨((t.param - r.phys) / 16).toNat, if t.control &&& trbTc ≠ 0 then !c.ccs else c.ccs⟩, none)
  else some (⟨c.idx + 1, c.ccs⟩, some { t with control := t.control &&& ~~~1 })

/-- A control word as the callers give it: the cycle bit is clear, and it is not that of a link. -/
structure Trb.Plain (t : Trb) : Prop where
  cycle : t.control.getLsbD 0 = false
  type : getType t.control ≠ ttLink

variable {t : Trb} {r r' : Ring} {c : Consumer}

theorem getLsbD_marked (plain : t.Plain) (b : Bool) : (t.marked b).control.getLsbD 0 = b := by
  rw [Trb.marked, BitVec.getLsbD_or, plain.cycle]
  cases b <;> rfl

theorem getType_marked (t : Trb) (b : Bool) : getType (t.marked b).control = getType t.control := by
  cases b <;> simp [Trb.marked, cycle, getType, BitVec.ushiftRight_or_distrib]

theorem unmark_marked (plain : t.Plain) (b : Bool) : (t.marked b).control &&& ~~~1 = t.control := by
  have mask : ∀ i < 32, (~~~1 : BitVec 32).getLsbD i = decide (i ≠ 0) := by decide
  apply BitVec.eq_of_getLsbD_eq
  intro i inside
  rw [BitVec.getLsbD_and, mask i inside, Trb.marked, BitVec.getLsbD_or]
  cases i with
  | zero => rw [plain.cycle, decide_eq_false (by simp), Bool.and_false]
  | succ i =>
    have above : (cycle b).getLsbD (i + 1) = false := by cases b <;> simp [cycle]
    rw [above, Bool.or_false, decide_eq_true (Nat.succ_ne_zero i), Bool.and_true]

/-- The cycle state of the driver in a lap. -/
def lap (k : Nat) : Bool := k % 2 = 0

/-- The ring after pushes and takes, with `n` entries and the link. -/
structure Ring.InStep (n : Nat) (r : Ring) (c : Consumer) (pushed taken : List Trb) : Prop where
  enq : r.enq = pushed.length % n
  pcs : r.pcs = lap (pushed.length / n)
  recent : ∀ k t, pushed[k]? = some t → pushed.length ≤ k + n → r.trbs (k % n) = t.marked (lap (k / n))
  blank : ∀ k, pushed.length ≤ k → k < n → r.trbs k = ⟨0, 0, 0⟩
  link : n ≤ pushed.length → r.trbs n = linkTrb r.phys (lap (pushed.length / n - 1))
  plain : ∀ t ∈ pushed, t.Plain
  inOrder : taken <+: pushed
  few : pushed.length + 1 ≤ taken.length + n
  place : c.idx = taken.length % n ∧ c.ccs = lap (taken.length / n) ∨
    c.idx = n ∧ taken.length % n = 0 ∧ 0 < taken.length ∧ c.ccs = lap (taken.length / n - 1)

variable {n : Nat} {pushed taken : List Trb}

theorem lap_succ (k : Nat) : lap (k + 1) = !lap k := by
  simp only [lap, ← decide_not, decide_eq_decide]
  omega

section

variable (sizes : n = 31 ∨ n = 63) (inStep : r.InStep n c pushed taken)
include sizes inStep

theorem Ring.InStep.push (plain : t.Plain)
    (room : pushed.length + 2 ≤ taken.length + n) : (r.push (n + 1) t).InStep n c (pushed ++ [t]) taken := by
  have count : (pushed ++ [t]).length = pushed.length + 1 := length_append
  have trbs (k : Nat) : (r.push (n + 1) t).trbs k = if k = n ∧ n ≤ r.enq + 1 then linkTrb r.phys r.pcs
      else if k = r.enq then t.marked r.pcs else r.trbs k := by
    simp only [Ring.push, Nat.add_sub_cancel]
    split <;> grind
  have enq := inStep.enq
  have pcs := inStep.pcs
  have phys : (r.push (n + 1) t).phys = r.phys := by
    unfold Ring.push
    split <;> rfl
  constructor
  · rw [count]
    unfold Ring.push
    dsimp only
    split <;> dsimp only <;> rcases sizes with rfl | rfl <;> omega
  · rw [count]
    unfold Ring.push
    split
    · have next : (pushed.length + 1) / n = pushed.length / n + 1 := by rcases sizes with rfl | rfl <;> omega
      rw [pcs, next, lap_succ]
    · rw [pcs]
      congr 1
      rcases sizes with rfl | rfl <;> omega
  · intro k u found recent
    rw [trbs, if_neg (by rcases sizes with rfl | rfl <;> omega)]
    rcases Nat.lt_trichotomy k pushed.length with older | rfl | newer
    · -- an entry of the last lap is not the one that is written
      rw [if_neg (by rcases sizes with rfl | rfl <;> omega)]
      rw [getElem?_append_left older] at found
      exact inStep.recent k u found (by omega)
    · rw [if_pos enq.symm, pcs]
      simp_all
    · rw [getElem?_eq_none (by omega)] at found
      cases found
  · intro k above inside
    rw [trbs, if_neg (by omega), if_neg (by rw [enq, Nat.mod_eq_of_lt (by omega)]; omega)]
    exact inStep.blank k (by omega) inside
  · intro enough
    rw [trbs, phys]
    by_cases last : n ≤ r.enq + 1
    · rw [if_pos ⟨rfl, last⟩, pcs]
      congr 2
      rcases sizes with rfl | rfl <;> omega
    · rw [if_neg (by omega), if_neg (by rcases sizes with rfl | rfl <;> omega),
        inStep.link (by rcases sizes with rfl | rfl <;> omega)]
      congr 2
      rcases sizes with rfl | rfl <;> omega
  · intro u mem
    rcases mem_append.mp mem with old | new
    · exact inStep.plain u old
    · rw [mem_singleton.mp new]
      exact plain
  · exact inStep.inOrder.trans (prefix_append ..)
  · omega
  · exact inStep.place

/-- The entry at which the controller waits has the cycle bit of the lap before. -/
theorem Ring.InStep.waits (all : taken = pushed) : (r.trbs (taken.length % n)).control.getLsbD 0 ≠ lap (taken.length / n) := by
  subst all
  by_cases first : taken.length < n
  · rw [Nat.mod_eq_of_lt first, inStep.blank _ (Nat.le_refl _) first, Nat.div_eq_of_lt first]
    decide
  · have inside : taken.length - n < taken.length := by omega
    have older := inStep.recent (taken.length - n) _ (getElem?_eq_getElem inside) (by omega)
    rw [show (taken.length - n) % n = taken.length % n by rcases sizes with rfl | rfl <;> omega] at older
    rw [older, getLsbD_marked (inStep.plain _ (getElem_mem inside)),
      show taken.length / n = (taken.length - n) / n + 1 by rcases sizes with rfl | rfl <;> omega, lap_succ]
    exact Bool.self_ne_not _

theorem Ring.InStep.step : (c.step r = none → taken = pushed) ∧
      ∀ c' got, c.step r = some (c', got) → r.InStep n c' pushed (taken ++ got.toList) := by
  have few := inStep.few
  have most := inStep.inOrder.length_le
  rcases inStep.place with ⟨idx, ccs⟩ | ⟨idx, whole, _, ccs⟩
  · rcases Nat.lt_or_eq_of_le most with more | all
    · -- the next TRB is there
      have found := getElem?_eq_getElem more
      have plain := inStep.plain _ (getElem_mem more)
      have entry := inStep.recent _ _ found (by omega)
      have takes : c.step r = some (⟨c.idx + 1, c.ccs⟩, some pushed[taken.length]) := by
        rw [Consumer.step, idx, entry, if_neg (by rw [getLsbD_marked plain, ccs]; exact not_not.mpr rfl),
          if_neg (by rw [getType_marked]; exact plain.type), unmark_marked plain]
        rfl
      refine ⟨fun waits => (by rw [takes] at waits; cases waits), fun c' got steps => ?_⟩
      rw [takes] at steps
      obtain ⟨rfl, rfl⟩ := Prod.mk.inj (Option.some.inj steps)
      have length : (taken ++ [pushed[taken.length]]).length = taken.length + 1 := length_append
      refine { inStep with inOrder := ?_, few := ?_, place := ?_ }
      · obtain ⟨rest, rfl⟩ := inStep.inOrder
        cases rest with
        | nil => simp at more
        | cons next rest => simp
      · rw [Option.toList_some, length]
        omega
      · rw [Option.toList_some, length, ccs, idx]
        dsimp only
        by_cases last : taken.length % n + 1 = n
        · refine .inr ⟨last, ?_, by omega, ?_⟩
          · rcases sizes with rfl | rfl <;> omega
          · congr 1
            rcases sizes with rfl | rfl <;> omega
        · refine .inl ⟨?_, ?_⟩
          · rcases sizes with rfl | rfl <;> omega
          · congr 1
            rcases sizes with rfl | rfl <;> omega
    · have same := inStep.inOrder.eq_of_length all
      have waits : c.step r = none := by
        rw [Consumer.step, idx, ccs, if_pos (inStep.waits sizes same)]
      exact ⟨fun _ => same, fun c' got steps => by rw [waits] at steps; cases steps⟩
  · -- the driver has not turned the link over again
    have turned := inStep.link (by rcases sizes with rfl | rfl <;> omega)
    rw [show pushed.length / n = taken.length / n by rcases sizes with rfl | rfl <;> omega, ← ccs] at turned
    have follows : c.step r = some (⟨0, !c.ccs⟩, none) := by
      rw [Consumer.step, idx, turned]
      cases c.ccs <;> simp [linkTrb, cycle, trbType, trbTc, ttLink, getType]
    refine ⟨fun waits => (by rw [follows] at waits; cases waits), fun c' got steps => ?_⟩
    rw [follows] at steps
    obtain ⟨rfl, rfl⟩ := Prod.mk.inj (Option.some.inj steps)
    rw [Option.toList_none, append_nil]
    refine { inStep with place := .inl ⟨whole.symm, ?_⟩ }
    have before : taken.length / n = taken.length / n - 1 + 1 := by rcases sizes with rfl | rfl <;> omega
    rw [ccs, before, lap_succ, Nat.add_sub_cancel]

end

inductive RingCall where
  | cmd (param : BitVec 64) (status control : BitVec 32)
  | ep0 (param : BitVec 64) (status control : BitVec 32)
  | kbd (bufPhys : BitVec 64) (maxPkt : BitVec 32)
  | bulkOut (phys : BitVec 64) (len : BitVec 32)
  | bulkIn (phys : BitVec 64) (len : BitVec 32)
  deriving DecidableEq, Repr

namespace RingCall

def size : RingCall → Nat
  | .cmd .. => cmdRingSz
  | _ => xferRingSz

def run (r : Ring) : RingCall → Ring
  | .cmd param status control => cmdPush r param status control
  | .ep0 param status control => ep0Push r param status control
  | .kbd bufPhys maxPkt => kbdPushOne r bufPhys maxPkt
  | .bulkOut phys len => bulkOutPush r phys len
  | .bulkIn phys len => bulkInPush r phys len

def trb : RingCall → Trb
  | .cmd param status control | .ep0 param status control => ⟨param, status, control⟩
  | .kbd address len | .bulkOut address len | .bulkIn address len => ⟨address, len, trbType ttNormal ||| trbIoc⟩

theorem run_eq (r : Ring) (call : RingCall) : call.run r = r.push call.size call.trb := by
  cases call <;> rfl

end RingCall

structure RingLedger where
  ring : Ring
  consumer : Consumer
  pushed : List Trb
  taken : List Trb

inductive RingStep (size : Nat) : RingLedger → RingLedger → Prop
  | push {l : RingLedger} (call : RingCall) (own : call.size = size) (plain : call.trb.Plain)
      (room : l.pushed.length + 1 ≤ l.taken.length + (size - 2)) :
      RingStep size l ⟨call.run l.ring, l.consumer, l.pushed ++ [call.trb], l.taken⟩
  | consume {l : RingLedger} (c' : Consumer) (got : Option Trb) (steps : l.consumer.step l.ring = some (c', got)) :
      RingStep size l ⟨l.ring, c', l.pushed, l.taken ++ got.toList⟩

def freshRing (phys : BitVec 64) : RingLedger := ⟨⟨fun _ => ⟨0, 0, 0⟩, phys, 0, true⟩, ⟨0, true⟩, [], []⟩

/-- With at most two entries fewer than the ring has outstanding, the controller takes the TRBs in the order in which they
were pushed, each once and as they were pushed, and it waits only when it has taken all of them. -/
theorem ring_delivers (size : Nat) (sizes : size = xferRingSz ∨ size = cmdRingSz) (phys : BitVec 64) (l : RingLedger)
    (run : ReflTransGen (RingStep size) (freshRing phys) l) :
    l.taken <+: l.pushed ∧ (l.consumer.step l.ring = none → l.taken = l.pushed) := by
  have lengths : size - 1 = 31 ∨ size - 1 = 63 := by
    rcases sizes with rfl | rfl
    · exact .inl rfl
    · exact .inr rfl
  have start : (freshRing phys).ring.InStep (size - 1) ⟨0, true⟩ [] [] := by
    refine ⟨(Nat.zero_mod _).symm, by rw [length_nil, Nat.zero_div]; rfl, by simp, fun _ _ _ => rfl, fun none => ?_, by simp,
      prefix_refl _, by simp only [length_nil]; omega, .inl ⟨(Nat.zero_mod _).symm, by rw [length_nil, Nat.zero_div]; rfl⟩⟩
    rw [length_nil] at none
    omega
  have kept := invariant_of_run (fun l : RingLedger => l.ring.InStep (size - 1) l.consumer l.pushed l.taken)
    (fun l l' inStep step => ?_) run start
  · exact ⟨kept.inOrder, (kept.step lengths).1⟩
  · cases step with
    | push call own plain room =>
      have pushes := inStep.push lengths plain (by omega)
      rw [show size - 1 + 1 = size by omega, ← own, ← RingCall.run_eq] at pushes
      exact own ▸ pushes
    | consume c' got steps => exact (inStep.step lengths).2 c' got steps

/-- A report of the keyboard is asked for, and the controller takes the TRB. -/
theorem report_requested : ∃ l, ReflTransGen (RingStep xferRingSz) (freshRing 0x5000) l ∧ l.taken =
    [⟨0x6000, 8, 0x420⟩] ∧ l.taken <+: l.pushed := by
  have pushes := RingStep.push (l := freshRing 0x5000) (.kbd 0x6000 8) rfl ⟨by decide, by decide⟩ (by decide)
  have steps := (ReflTransGen.single pushes).tail (.consume ⟨1, true⟩ (some ⟨0x6000, 8, 0x420⟩) rfl)
  exact ⟨_, steps, rfl, (ring_delivers xferRingSz (.inl rfl) 0x5000 _ steps).1⟩

end Xos.Io
