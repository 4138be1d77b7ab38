import Xos.Io.Rings

/-!
# The events of the USB controller (`xhci.c`)

All completions come through one ring. `cmd_wait` and `xfer_wait` spin on it, and `xhci_poll` empties it in the timer
interrupt; each of them drops the events that it does not look for.
-/
namespace Xos.Io

open Function Lib List Relation

def ttXferEvt : BitVec 32 := 32

def ttCmdComp : BitVec 32 := 33

def getCc (status : BitVec 32) : Nat := (status >>> 24 &&& 0xFF).toNat

def getSlot (control : BitVec 32) : Nat := (control >>> 24 &&& 0xFF).toNat

def getEpid (control : BitVec 32) : Nat := (control >>> 16 &&& 0x1F).toNat

/-- `CC_SUCCESS` or `CC_SHORT`. -/
def Trb.succeeded (e : Trb) : Bool := getCc e.status = 1 || getCc e.status = 13

def Trb.transferOf (e : Trb) (sid epDci : Nat) : Bool :=
  getType e.control = ttXferEvt && getSlot e.control = sid && getEpid e.control = epDci

/-- What is waited for, by `cmd_wait` or by `xfer_wait`. -/
inductive Wait where
  | cmd
  | xfer (sid epDci : Nat)

def Wait.wants : Wait → Trb → Bool
  | .cmd, e => getType e.control = ttCmdComp
  | .xfer sid epDci, e => e.transferOf sid epDci

/-- The result for an event, or for none in time, and what `*out_slot` becomes. -/
def Wait.answer : Wait → Option Trb → Int × Option Nat
  | .cmd, some e => (getCc e.status, some (getSlot e.control))
  | .cmd, none => (-1, some 0)
  | .xfer .., some e => (if e.succeeded then 0 else -1, none)
  | .xfer .., none => (-1, none)

/-- The driver with the events in the ring, the keyboard transfers that are not completed, the wait with the rounds left
and whether its completion was posted, and the last result. -/
structure Xhci where
  ok : Bool
  events : List Trb
  kbdReady : Nat → Bool
  kbdDci : Nat → Nat
  transfers : Nat → Nat
  waiting : Option (Wait × Nat)
  posted : Bool
  answer : Option (Int × Option Nat)

def maxSlots : Nat := 8

namespace Xhci

def report (x : Xhci) (sid : Nat) (e : Trb) : Bool := x.kbdReady sid && e.transferOf sid (x.kbdDci sid)

/-- The body of the loop in `xhci_poll`, where `kbd_push_one` requests the next report. -/
def pollEvent (x : Xhci) (transfers : Nat → Nat) (e : Trb) : Nat → Nat :=
  let sid := getSlot e.control
  if 1 ≤ sid ∧ sid ≤ maxSlots ∧ x.report sid e ∧ e.succeeded then update transfers sid (transfers sid + 1) else transfers

def poll (x : Xhci) : Xhci :=
  if x.ok then { x with events := [], transfers := x.events.foldl x.pollEvent x.transfers } else x

def round (x : Xhci) (w : Wait) : Nat → Xhci
  | 0 => { x with waiting := none, answer := some (w.answer none) }
  | n + 1 =>
    match x.events with
    | [] => { x with waiting := some (w, n) }
    | e :: rest =>
      if w.wants e then { x with events := rest, waiting := none, answer := some (w.answer (some e)) }
      else { x with events := rest, waiting := some (w, n) }

def post (x : Xhci) (e : Trb) : Xhci :=
  { x with
    events := x.events ++ [e]
    transfers := fun sid => x.transfers sid - if x.report sid e then 1 else 0
    posted := x.posted || x.waiting.any (·.1.wants e) }

def start (x : Xhci) (w : Wait) : Xhci := { x with waiting := some (w, 5000000), posted := false }

/-- The completion that is waited for is in the ring once posted, and for each keyboard a transfer is outstanding or its
event is in the ring. -/
structure Delivers (x : Xhci) : Prop where
  waiter : ∀ p, x.waiting = some p → x.posted → ∃ e ∈ x.events, p.1.wants e
  keyboard : ∀ sid, 1 ≤ sid → sid ≤ maxSlots → x.kbdReady sid → x.transfers sid + x.events.countP (x.report sid) = 1

end Xhci

/-- The steps in any order, and the calm ones: no poll and no report of a keyboard during a wait, and no report fails. -/
inductive EventStep (calm : Bool) : Xhci → Xhci → Prop
  | start {x : Xhci} (w : Wait) (idle : x.waiting = none) (quiet : calm → ∀ e ∈ x.events, ∀ sid, ¬x.report sid e) :
      EventStep calm x (x.start w)
  | round {x : Xhci} {w : Wait} {n : Nat} (waits : x.waiting = some (w, n)) : EventStep calm x (x.round w n)
  | poll {x : Xhci} (quiet : calm → x.waiting = none) : EventStep calm x x.poll
  | post {x : Xhci} (e : Trb) (due : ∀ sid, x.report sid e → 0 < x.transfers sid)
      (quiet : calm → ∀ sid, x.report sid e → x.waiting = none ∧ e.succeeded) : EventStep calm x (x.post e)

namespace Xhci

variable {x : Xhci}

theorem pollEvent_slot {transfers : Nat → Nat} {e : Trb} {sid : Nat} (low : 1 ≤ sid) (high : sid ≤ maxSlots)
    (fine : x.report sid e → e.succeeded) :
    x.pollEvent transfers e sid = transfers sid + if x.report sid e then 1 else 0 := by
  rw [pollEvent]
  by_cases own : x.report sid e
  · have here : getSlot e.control = sid := by simp_all [report, Trb.transferOf]
    rw [here, if_pos ⟨low, high, own, fine own⟩, update_self, if_pos own]
  · rw [if_neg own]
    split
    next other =>
      refine update_of_ne (fun same => own ?_) ..
      rw [same]
      exact other.2.2.1
    next => rfl

theorem foldl_pollEvent {sid : Nat} (low : 1 ≤ sid) (high : sid ≤ maxSlots) (events : List Trb) (transfers : Nat → Nat)
    (fine : ∀ e ∈ events, x.report sid e → e.succeeded) :
    events.foldl x.pollEvent transfers sid = transfers sid + events.countP (x.report sid) := by
  induction events generalizing transfers with
  | nil => rfl
  | cons e rest ih =>
    rw [foldl_cons, ih _ fun e mem => fine e (mem_cons_of_mem _ mem), pollEvent_slot low high (fine e mem_cons_self),
      countP_cons]
    omega

structure Calm (x : Xhci) : Prop extends x.Delivers where
  quiet : x.waiting ≠ none → ∀ e ∈ x.events, ∀ sid, ¬x.report sid e
  succeeded : ∀ e ∈ x.events, ∀ sid, x.report sid e → e.succeeded

namespace Calm

variable (calm : x.Calm)
include calm

/-- A wait takes events away, none of which is that of a keyboard. -/
theorem take {rest : List Trb} {waiting : Option (Wait × Nat)} {answer : Option (Int × Option Nat)} (busy : x.waiting ≠ none)
    (part : rest ⊆ x.events) (waiter : ∀ p, waiting = some p → x.posted → ∃ e ∈ rest, p.1.wants e) :
    ({ x with events := rest, waiting := waiting, answer := answer } : Xhci).Calm := by
  have quiet := calm.quiet busy
  refine ⟨⟨waiter, fun sid low high ready => ?_⟩, fun _ e mem => quiet e (part mem),
    fun e mem sid own => absurd own (quiet e (part mem) sid)⟩
  have before := calm.keyboard sid low high ready
  rw [countP_eq_zero.mpr fun e mem => quiet e mem sid] at before
  show x.transfers sid + countP (x.report sid) rest = 1
  rw [countP_eq_zero.mpr fun e mem => quiet e (part mem) sid]
  exact before

theorem round {w : Wait} {n : Nat} (waits : x.waiting = some (w, n)) : (x.round w n).Calm := by
  have busy : x.waiting ≠ none := by simp [waits]
  have kept := calm.waiter _ waits
  unfold Xhci.round
  split
  · exact calm.take busy (Subset.refl _) fun p none => by cases none
  · split
    · refine calm.take busy (Subset.refl _) ?_
      rintro p ⟨⟩
      exact kept
    next e rest events =>
      have part : rest ⊆ x.events := by
        rw [events]
        exact subset_cons_self e rest
      split
      · exact calm.take busy part fun p none => by cases none
      next other =>
        refine calm.take busy part ?_
        rintro p ⟨⟩ posted
        rw [events] at kept
        obtain ⟨own, mem, wanted⟩ := kept posted
        rcases mem_cons.mp mem with rfl | inside
        · exact absurd wanted other
        · exact ⟨own, inside, wanted⟩

theorem poll (idle : x.waiting = none) : x.poll.Calm := by
  rw [Xhci.poll]
  split
  · refine ⟨⟨fun p waits => ?_, fun sid low high ready => ?_⟩, fun busy => absurd idle busy, fun e mem => ?_⟩
    · cases idle.symm.trans waits
    · exact (foldl_pollEvent low high x.events x.transfers fun e mem => calm.succeeded e mem sid).trans
        (calm.keyboard sid low high ready)
    · cases mem
  · exact calm

theorem post {e : Trb} (due : ∀ sid, x.report sid e → 0 < x.transfers sid)
    (quiet : ∀ sid, x.report sid e → x.waiting = none ∧ e.succeeded) : (x.post e).Calm := by
  have event {e' : Trb} (mem : e' ∈ (x.post e).events) : e' ∈ x.events ∨ e' = e := by
    simpa [Xhci.post] using mem
  refine ⟨⟨fun p waits posted => ?_, fun sid low high ready => ?_⟩, fun busy e' mem sid own => ?_, fun e' mem sid own => ?_⟩
  · rcases Bool.or_eq_true .. ▸ posted with before | now
    · obtain ⟨own, mem, wanted⟩ := calm.waiter p waits before
      exact ⟨own, mem_append_left _ mem, wanted⟩
    · rw [show x.waiting = some p from waits] at now
      exact ⟨e, mem_append_right _ mem_cons_self, now⟩
  · have before := calm.keyboard sid low high ready
    show x.transfers sid - (if x.report sid e then 1 else 0) + countP (x.report sid) (x.events ++ [e]) = 1
    rw [countP_append, countP_singleton]
    split
    next own =>
      have := due sid own
      omega
    next => exact before
  · rcases event mem with old | rfl
    · exact calm.quiet busy e' old sid own
    · exact busy (quiet sid own).1
  · rcases event mem with old | rfl
    · exact calm.succeeded e' old sid own
    · exact (quiet sid own).2

end Calm

end Xhci

/-- In calm runs every completion reaches the code that waits for it. -/
theorem completions_delivered (start x : Xhci) (idle : start.waiting = none) (empty : start.events = [])
    (armed : ∀ sid, start.kbdReady sid → start.transfers sid = 1) (run : ReflTransGen (EventStep true) start x) : x.Delivers := by
  have initial : start.Calm := by
    refine ⟨⟨fun p waits => ?_, fun sid _ _ ready => ?_⟩, fun busy => absurd idle busy, fun e member => ?_⟩
    · cases idle.symm.trans waits
    · rw [empty, armed sid ready]
      rfl
    · rw [empty] at member
      cases member
  refine (invariant_of_run Xhci.Calm (fun x x' calm step => ?_) run initial).toDelivers
  cases step with
  | start w idle quiet => exact { calm with waiter := fun _ _ posted => (by cases posted), quiet := fun _ => quiet rfl }
  | round waits => exact calm.round waits
  | poll quiet => exact calm.poll (quiet rfl)
  | post e due quiet => exact calm.post due (quiet rfl)

def keyboardReady : Xhci := ⟨true, [], (· = 1), fun _ => 3, fun _ => 1, none, false, none⟩

def completion (sid : BitVec 32) : Trb := ⟨0, 0x01000000, sid <<< 24 ||| 0x38001⟩

/-- A key is pressed and handled, and a transfer is waited for. -/
theorem report_handled : ∃ x, ReflTransGen (EventStep true) keyboardReady x ∧ x.waiting.isSome ∧ x.Delivers := by
  have posted : ReflTransGen (EventStep true) keyboardReady _ :=
    .single (.post (completion 1) (fun _ _ => Nat.one_pos) fun _ _ _ => ⟨rfl, rfl⟩)
  have waits := (posted.tail (.poll fun _ => rfl)).tail (.start (.xfer 2 3) rfl fun _ e member => by cases member)
  exact ⟨_, waits, rfl, completions_delivered _ _ rfl rfl (fun _ _ => rfl) waits⟩

theorem times_out {x : Xhci} {w : Wait} (n : Nat) (waits : x.waiting = some (w, n)) (empty : x.events = []) :
    ∃ x', ReflTransGen (EventStep false) x x' ∧ x'.answer = some (w.answer none) := by
  induction n generalizing x with
  | zero => exact ⟨_, .single (.round waits), rfl⟩
  | succ n ih =>
    have next : x.round w (n + 1) = { x with waiting := some (w, n) } := by
      rw [Xhci.round, empty]
    obtain ⟨x', run, answer⟩ := ih (x := x.round w (n + 1)) (by rw [next]) (by rw [next]; exact empty)
    exact ⟨x', .head (.round waits) run, answer⟩

/-- The timer interrupt takes the completion of a transfer, and the wait for it fails; a wait takes the report of the
keyboard, and no other one is requested. -/
theorem completions_lost :
    (∃ x x', ReflTransGen (EventStep false) keyboardReady x ∧ x.posted ∧ x.waiting = some (.xfer 2 3, 5000000) ∧
      ReflTransGen (EventStep false) x x' ∧ x'.answer = some (-1, none)) ∧
    ∃ x, ReflTransGen (EventStep false) keyboardReady x ∧ x.kbdReady 1 ∧ x.transfers 1 = 0 ∧ x.events = [] := by
  have start : ReflTransGen (EventStep false) keyboardReady _ := .single (.start (.xfer 2 3) rfl fun calm => by cases calm)
  constructor
  · have posted := start.tail (.post (completion 2) (fun _ _ => Nat.one_pos) fun calm => by cases calm)
    have polled := posted.tail (.poll fun calm => by cases calm)
    obtain ⟨x', later, failed⟩ :=
      times_out (x := ((keyboardReady.start (.xfer 2 3)).post (completion 2)).poll) (w := .xfer 2 3) 5000000 rfl rfl
    exact ⟨_, x', polled, rfl, rfl, later, failed⟩
  · have posted := start.tail (.post (completion 1) (fun _ _ => Nat.one_pos) fun calm => by cases calm)
    exact ⟨_, posted.tail (.round (w := .xfer 2 3) (n := 5000000) rfl), rfl, rfl, rfl⟩

end Xos.Io
