import Mathlib.Data.List.Basic
import Mathlib.Data.List.Induction

/-!
# The endpoints of a USB device (`enumerate_port` in `xhci.c`)

The parser of a configuration descriptor takes an endpoint for one of an interface if the last interface before it has
the same number. Alternate settings share their number. What is chosen in the end are the values of the endpoints that
were taken last.
-/

namespace Xos.Io

structure Interface where
  number : Nat
  cls : Nat
  sub : Nat
  proto : Nat
deriving DecidableEq

structure Endpoint where
  addr : Nat
  attr : Nat
  maxPkt : Nat
  interval : Nat
deriving DecidableEq

inductive Descriptor
  | interface (i : Interface)
  | endpoint (e : Endpoint)
  | other
deriving DecidableEq

def Interface.bootKeyboard (i : Interface) : Bool := i.cls = 3 ∧ i.sub = 1 ∧ i.proto = 1

def Interface.bulkOnly (i : Interface) : Bool := i.cls = 8 ∧ i.proto = 0x50

def descriptorAt (buf : Nat → Nat) (a : Nat) : Descriptor :=
  if buf (a + 1) = 4 then .interface ⟨buf (a + 2), buf (a + 5), buf (a + 6), buf (a + 7)⟩
  else if buf (a + 1) = 5 then
    .endpoint ⟨buf (a + 2), buf (a + 3), (buf (a + 4) ||| buf (a + 5) <<< 8) &&& 0x7ff, buf (a + 6)⟩
  else .other

/-- The descriptors in the order in which the loop comes to them. Each has two bytes at least, so there are not more
rounds than bytes. -/
def descriptors (buf : Nat → Nat) (stop : Nat) : Nat → Nat → List Descriptor
  | 0, _ => []
  | rounds + 1, a =>
    if a < stop ∧ buf a ≥ 2 then descriptorAt buf a :: descriptors buf stop rounds (a + buf a) else []

/-- The variables of the loop, with -1 for no interface. -/
structure Parsed where
  kbdIface : Int := -1
  kbdEpAddr : Nat := 0
  kbdInterval : Nat := 10
  kbdMaxPkt : Nat := 8
  mscIface : Int := -1
  mscEpOut : Nat := 0
  mscEpIn : Nat := 0
  mscMaxPkt : Nat := 512
  curIface : Int := -1

namespace Parsed

def takeKeyboard (s : Parsed) (e : Endpoint) : Parsed :=
  if s.curIface = s.kbdIface ∧ e.attr &&& 3 = 3 ∧ e.addr &&& 0x80 ≠ 0 then
    { s with kbdEpAddr := e.addr, kbdMaxPkt := e.maxPkt, kbdInterval := e.interval }
  else s

def takeBulk (s : Parsed) (e : Endpoint) : Parsed :=
  if s.curIface = s.mscIface ∧ e.attr &&& 3 = 2 then
    if e.addr &&& 0x80 ≠ 0 then { s with mscEpIn := e.addr, mscMaxPkt := e.maxPkt }
    else { s with mscEpOut := e.addr, mscMaxPkt := e.maxPkt }
  else s

def take (s : Parsed) : Descriptor → Parsed
  | .interface i =>
    { s with
      curIface := i.number
      kbdIface := if i.bootKeyboard then i.number else s.kbdIface
      mscIface := if i.bulkOnly then i.number else s.mscIface }
  | .endpoint e => (s.takeKeyboard e).takeBulk e
  | .other => s

end Parsed

def parse (buf : Nat → Nat) (totalLen : Nat) : Parsed := (descriptors buf totalLen totalLen 0).foldl Parsed.take {}

/-- The endpoint comes behind such an interface, with no other interface between them. -/
def Follows (ds : List Descriptor) (wanted : Interface → Bool) (e : Endpoint) : Prop :=
  ∃ front i mid rest, ds = front ++ .interface i :: (mid ++ .endpoint e :: rest) ∧ wanted i ∧ ∀ j, .interface j ∉ mid

/-- What the device is set up as, with the arguments of `enumerate_msc` or the endpoint of the keyboard. -/
inductive Choice
  | msc (epOut epIn maxPkt : Nat)
  | keyboard (addr maxPkt interval : Nat)
deriving DecidableEq

/-- The choice behind the loop. -/
def Parsed.choose (s : Parsed) : Option Choice :=
  if s.mscIface ≠ -1 ∧ s.mscEpOut ≠ 0 ∧ s.mscEpIn ≠ 0 then some (.msc s.mscEpOut s.mscEpIn s.mscMaxPkt)
  else if s.kbdIface = -1 ∨ s.kbdEpAddr = 0 then none
  else some (.keyboard s.kbdEpAddr s.kbdMaxPkt s.kbdInterval)

namespace Endpoint

def interruptIn (e : Endpoint) : Bool := e.attr &&& 3 = 3 ∧ e.addr &&& 0x80 ≠ 0

def bulk (e : Endpoint) : Bool := e.attr &&& 3 = 2

def bulkIn (e : Endpoint) : Bool := e.bulk ∧ e.addr &&& 0x80 ≠ 0

def bulkOut (e : Endpoint) : Bool := e.bulk ∧ e.addr &&& 0x80 = 0

def polled (e : Endpoint) : Nat × Nat × Nat := (e.addr, e.maxPkt, e.interval)

end Endpoint

/-- The value is a field of such an endpoint of such an interface. -/
def ComesFrom (ds : List Descriptor) (wanted : Interface → Bool) (test : Endpoint → Bool) {α : Type}
    (field : Endpoint → α) (value : α) : Prop :=
  ∃ e, Follows ds wanted e ∧ test e ∧ field e = value

/-- All that is chosen comes from endpoints of interfaces of the kind. -/
def Attributed (ds : List Descriptor) : Option Choice → Prop
  | none => True
  | some (.msc epOut epIn maxPkt) =>
    ComesFrom ds Interface.bulkOnly Endpoint.bulkOut Endpoint.addr epOut ∧
      ComesFrom ds Interface.bulkOnly Endpoint.bulkIn Endpoint.addr epIn ∧
      ComesFrom ds Interface.bulkOnly Endpoint.bulk Endpoint.maxPkt maxPkt
  | some (.keyboard addr maxPkt interval) =>
    ComesFrom ds Interface.bootKeyboard Endpoint.interruptIn Endpoint.polled (addr, maxPkt, interval)

section

variable (wanted : Interface → Bool) (test : Endpoint → Bool)

/-- The number of the last such interface, or -1. -/
def lastNumber (ds : List Descriptor) : Int :=
  (ds.filterMap fun
    | .interface i => if wanted i then some (i.number : Int) else none
    | _ => none).getLast?.getD (-1)

/-- The endpoints whose last interface has the number of the last such interface before them, where `front` is what
stands before the list. An endpoint before all interfaces is one of them. -/
def numbered (front : List Descriptor) : List Descriptor → List Endpoint
  | [] => []
  | .endpoint e :: rest =>
    if lastNumber (fun _ => true) front = lastNumber wanted front ∧ test e then
      e :: numbered (front ++ [.endpoint e]) rest
    else numbered (front ++ [.endpoint e]) rest
  | d :: rest => numbered (front ++ [d]) rest

def lastNumbered (ds : List Descriptor) : Option Endpoint := (numbered wanted test [] ds).getLast?

variable (ds : List Descriptor)

theorem numbered_append (front more : List Descriptor) :
    numbered wanted test front (ds ++ more) = numbered wanted test front ds ++ numbered wanted test (front ++ ds) more := by
  fun_induction numbered wanted test front ds <;> simp_all [numbered]

theorem lastNumber_interface (i : Interface) :
    lastNumber wanted (ds ++ [.interface i]) = if wanted i then (i.number : Int) else lastNumber wanted ds := by
  by_cases kind : wanted i <;> simp [lastNumber, List.filterMap_append, kind]

theorem lastNumber_skip {d : Descriptor} (other : ∀ i, d ≠ .interface i) :
    lastNumber wanted (ds ++ [d]) = lastNumber wanted ds := by
  cases d with
  | interface i => exact absurd rfl (other i)
  | endpoint e => simp [lastNumber, List.filterMap_append]
  | other => simp [lastNumber, List.filterMap_append]

theorem lastNumber_ne : lastNumber wanted ds ≠ -1 ↔ ∃ i, .interface i ∈ ds ∧ wanted i := by
  induction ds using List.reverseRecOn with
  | nil => simp [lastNumber]
  | append_singleton ds d ih =>
    cases d with
    | interface i =>
      rw [lastNumber_interface]
      by_cases kind : wanted i
      · simp only [kind, if_true]
        exact iff_of_true (by omega) ⟨i, by simp, kind⟩
      · simp only [kind, Bool.false_eq_true, if_false, ih, List.mem_append, List.mem_singleton, Descriptor.interface.injEq]
        grind
    | endpoint e => simp [lastNumber_skip, ih]
    | other => simp [lastNumber_skip, ih]

theorem lastNumbered_endpoint (e : Endpoint) : lastNumbered wanted test (ds ++ [.endpoint e]) =
    if lastNumber (fun _ => true) ds = lastNumber wanted ds ∧ test e then some e else lastNumbered wanted test ds := by
  simp only [lastNumbered, numbered_append, numbered, List.nil_append]
  split <;> simp

theorem lastNumbered_skip {d : Descriptor} (other : ∀ e, d ≠ .endpoint e) :
    lastNumbered wanted test (ds ++ [d]) = lastNumbered wanted test ds := by
  cases d with
  | endpoint e => exact absurd rfl (other e)
  | interface i => simp [lastNumbered, numbered_append, numbered]
  | other => simp [lastNumbered, numbered_append, numbered]

theorem lastNumbered_isSome {narrow : Endpoint → Bool} (wider : ∀ e, narrow e → test e)
    (found : (lastNumbered wanted narrow ds).isSome) : (lastNumbered wanted test ds).isSome := by
  induction ds using List.reverseRecOn with
  | nil => exact found
  | append_singleton ds d ih =>
    cases d with
    | endpoint e =>
      rw [lastNumbered_endpoint] at found ⊢
      have also := wider e
      split_ifs at found ⊢ <;> grind
    | interface i =>
      rw [lastNumbered_skip _ _ _ (by simp)] at found ⊢
      exact ih found
    | other =>
      rw [lastNumbered_skip _ _ _ (by simp)] at found ⊢
      exact ih found

end

/-- The variables behind the descriptors `ds`. -/
structure Parsed.Tracks (s : Parsed) (ds : List Descriptor) : Prop where
  cur : s.curIface = lastNumber (fun _ => true) ds
  kbd : s.kbdIface = lastNumber Interface.bootKeyboard ds
  msc : s.mscIface = lastNumber Interface.bulkOnly ds
  polled : (s.kbdEpAddr, s.kbdMaxPkt, s.kbdInterval) =
    (lastNumbered Interface.bootKeyboard Endpoint.interruptIn ds).elim (0, 8, 10) Endpoint.polled
  out : s.mscEpOut = (lastNumbered Interface.bulkOnly Endpoint.bulkOut ds).elim 0 Endpoint.addr
  inp : s.mscEpIn = (lastNumbered Interface.bulkOnly Endpoint.bulkIn ds).elim 0 Endpoint.addr
  pkt : s.mscMaxPkt = (lastNumbered Interface.bulkOnly Endpoint.bulk ds).elim 512 Endpoint.maxPkt

section

variable (s : Parsed) (e : Endpoint)

theorem Parsed.take_endpoint_ifaces : (s.take (.endpoint e)).curIface = s.curIface ∧
    (s.take (.endpoint e)).kbdIface = s.kbdIface ∧ (s.take (.endpoint e)).mscIface = s.mscIface := by
  simp only [take, takeBulk, takeKeyboard]
  split_ifs <;> exact ⟨rfl, rfl, rfl⟩

theorem Parsed.take_polled :
    ((s.take (.endpoint e)).kbdEpAddr, (s.take (.endpoint e)).kbdMaxPkt, (s.take (.endpoint e)).kbdInterval) =
      if s.curIface = s.kbdIface ∧ e.interruptIn then e.polled else (s.kbdEpAddr, s.kbdMaxPkt, s.kbdInterval) := by
  simp only [take, takeBulk, takeKeyboard, Endpoint.interruptIn, Endpoint.polled, decide_eq_true_eq]
  split_ifs <;> rfl

theorem Parsed.take_bulk :
    (s.take (.endpoint e)).mscEpOut = (if s.curIface = s.mscIface ∧ e.bulkOut then e.addr else s.mscEpOut) ∧
      (s.take (.endpoint e)).mscEpIn = (if s.curIface = s.mscIface ∧ e.bulkIn then e.addr else s.mscEpIn) ∧
      (s.take (.endpoint e)).mscMaxPkt = if s.curIface = s.mscIface ∧ e.bulk then e.maxPkt else s.mscMaxPkt := by
  simp only [take, takeBulk, takeKeyboard, Endpoint.bulkOut, Endpoint.bulkIn, Endpoint.bulk, decide_eq_true_eq]
  by_cases number : s.curIface = s.mscIface <;> by_cases kind : e.attr &&& 3 = 2 <;>
    by_cases direction : e.addr &&& 0x80 = 0 <;> simp [number, kind, direction] <;> split_ifs <;> simp_all

end

theorem Parsed.Tracks.take {s : Parsed} {ds : List Descriptor} (tracks : s.Tracks ds) (d : Descriptor) :
    (s.take d).Tracks (ds ++ [d]) := by
  cases d with
  | other =>
    obtain ⟨cur, kbd, msc, polled, out, inp, pkt⟩ := tracks
    constructor <;> simpa [lastNumber_skip, lastNumbered_skip, Parsed.take]
  | interface i =>
    obtain ⟨cur, kbd, msc, polled, out, inp, pkt⟩ := tracks
    constructor <;> simp [lastNumber_interface, lastNumbered_skip, Parsed.take, *]
  | endpoint e =>
    have skip := fun wanted => lastNumber_skip wanted ds (d := .endpoint e) (fun _ same => nomatch same)
    obtain ⟨cur, kbd, msc⟩ := s.take_endpoint_ifaces e
    obtain ⟨out, inp, pkt⟩ := s.take_bulk e
    refine ⟨?_, ?_, ?_, ?_, ?_, ?_, ?_⟩
    · rw [cur, skip, tracks.cur]
    · rw [kbd, skip, tracks.kbd]
    · rw [msc, skip, tracks.msc]
    · rw [s.take_polled, lastNumbered_endpoint, tracks.cur, tracks.kbd, tracks.polled, apply_ite (Option.elim · _ _)]
      rfl
    · rw [out, lastNumbered_endpoint, tracks.cur, tracks.msc, tracks.out, apply_ite (Option.elim · _ _)]
      rfl
    · rw [inp, lastNumbered_endpoint, tracks.cur, tracks.msc, tracks.inp, apply_ite (Option.elim · _ _)]
      rfl
    · rw [pkt, lastNumbered_endpoint, tracks.cur, tracks.msc, tracks.pkt, apply_ite (Option.elim · _ _)]
      rfl

theorem foldl_tracks (ds : List Descriptor) : (ds.foldl Parsed.take {}).Tracks ds := by
  induction ds using List.reverseRecOn with
  | nil => exact ⟨rfl, rfl, rfl, rfl, rfl, rfl, rfl⟩
  | append_singleton ds d ih =>
    rw [List.foldl_append]
    exact ih.take d

/-- There is such an interface, and the endpoint that is taken for it last has an address. -/
def Chosen (ds : List Descriptor) (wanted : Interface → Bool) (test : Endpoint → Bool) : Prop :=
  (∃ i, .interface i ∈ ds ∧ wanted i) ∧ ∃ e ∈ lastNumbered wanted test ds, e.addr ≠ 0

theorem elim_ne_zero (found : Option Endpoint) : found.elim 0 Endpoint.addr ≠ 0 ↔ ∃ e ∈ found, e.addr ≠ 0 := by
  cases found <;> simp

def HasDisk (ds : List Descriptor) : Prop :=
  Chosen ds Interface.bulkOnly Endpoint.bulkOut ∧ Chosen ds Interface.bulkOnly Endpoint.bulkIn

/-- The endpoint that is taken last has the value of one that follows such an interface. -/
def Right {α : Type} (ds : List Descriptor) (wanted : Interface → Bool) (test : Endpoint → Bool) (value : Endpoint → α) : Prop :=
  ∀ e ∈ lastNumbered wanted test ds, ComesFrom ds wanted test value (value e)

/-- An interface of a disk without endpoints, and another setting of it with another protocol and two endpoints. -/
def twoSettings (a : Nat) : Nat :=
  [9, 4, 0, 0, 0, 8, 6, 0x50, 0, 9, 4, 0, 1, 2, 8, 6, 0x62, 0, 7, 5, 0x83, 2, 0, 2, 0, 7, 5, 2, 2, 0, 2, 0].getD a 0

end Xos.Io
