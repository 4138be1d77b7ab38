import Xos.Lib.Pool
import Xos.Lib.Slots
import Xos.Net.Ethernet

/-!
# Frames that wait for an ARP reply

`s_pending` is a bag of frames. A slot that was emptied still has its length and its hop, so a second reply from the
same sender transmits it again.
-/
namespace Xos.Net

open Lib Relation Function List Option Outcome

structure Queued where
  hop : Ipv4Addr
  bytes : List Byte
  deriving DecidableEq

namespace Ethernet

def queuedAt (eth : Ethernet) (i : Nat) : Option Queued :=
  if (eth.pending i).frame = 0 then none else (eth.memory (eth.pending i).frame).map (⟨(eth.pending i).waitingFor, ·⟩)

structure Ready (eth : Ethernet) (slot : PendingFrame) (bytes : List Byte) : Prop where
  stored : eth.memory slot.frame = some bytes
  whole : bytes.take slot.len.toNat = bytes
  nonempty : slot.len ≠ 0
  short : 14 + slot.len.toNat < 2 ^ 16
  card : slot.driver = some .e1000

structure Queue (eth : Ethernet) (waiting : List Queued) : Prop where
  ready : ∀ i < maxPendingFrames, (eth.pending i).frame ≠ 0 → ∃ bytes, eth.Ready (eth.pending i) bytes
  apart : ∀ i < maxPendingFrames, ∀ j < maxPendingFrames, (eth.pending i).frame ≠ 0 → (eth.pending i).frame = (eth.pending j).frame → i = j
  listed : waiting.Perm (Slots.contents maxPendingFrames eth.queuedAt)

end Ethernet

/-- A packet for a hop is sent, with the address that `kmalloc` returns; or an ARP packet comes in. -/
inductive EthernetCall where
  | send (nic : Nic) (data : List Byte) (len : BitVec 16) (gateway : Ipv4Addr) (block : Nat)
  | receive (data : List Byte) (len : BitVec 16) (nic : Nic)

def EthernetCall.run (eth : Ethernet) : EthernetCall → Outcome (Ethernet × List (List Byte))
  | .send nic data len gateway block => ethernetDriverSend eth nic data len gateway block
  | .receive data len nic => arpReceive eth data len nic

def replySender (data : List Byte) (len : BitVec 16) : Option Ipv4Addr :=
  if sizeofArpPacketIpv4 ≤ len.toNat ∧ htons (ArpPacketIpv4.ofBytes data).opCode = arpReply then
    some (ArpPacketIpv4.ofBytes data).senderIpAddress
  else none

structure Queueing where
  eth : Ethernet
  waiting : List Queued

namespace Queueing

def after (q : Queueing) : EthernetCall → List Queued
  | .send _ data len gateway _ =>
    if (arpTableLookup q.eth gateway).isSome then q.waiting else q.waiting ++ [⟨gateway, data.take len.toNat⟩]
  | .receive data len _ =>
    match replySender data len with
    | some hop => q.waiting.filter (·.hop ≠ hop)
    | none => q.waiting

/-- What a call transmits. With a reply it is each of the frames that wait for the sender, once, to the address in
the ARP table; and no other call transmits a frame that waits. -/
def Transmits (q : Queueing) (eth' : Ethernet) (out : List (List Byte)) : EthernetCall → Prop
  | .send _ data len gateway _ =>
    match arpTableLookup q.eth gateway with
    | some mac => out = [ethernetFrame mac q.eth.mac ethertypeIpv4 (data.take len.toNat)]
    | none => ∃ dst payload, out = [ethernetFrame dst q.eth.mac ethertypeArp payload]
  | .receive data len _ =>
    match replySender data len with
    | some hop => ∃ mac, arpTableLookup eth' hop = some mac ∧
      out.Perm ((q.waiting.filter (·.hop = hop)).map fun frame => ethernetFrame mac q.eth.mac ethertypeIpv4 frame.bytes)
    | none => out = [] ∨ ∃ dst payload, out = [ethernetFrame dst q.eth.mac ethertypeArp payload]

/-- What the code needs. A frame fits its length and finds a slot; the sender of a reply finds an entry in the ARP
table, and no emptied slot has its address. -/
def Meets (q : Queueing) : EthernetCall → Prop
  | .send _ _ len gateway _ => 14 + len.toNat < 2 ^ 16 ∧
    (arpTableLookup q.eth gateway = none → len ≠ 0 ∧ ∃ i < maxPendingFrames, (q.eth.pending i).frame = 0)
  | .receive data len _ => ∀ hop, replySender data len = some hop →
    ((arpTableLookup q.eth hop).isSome ∨ ∃ i < arpTableSize, (q.eth.arpTable i).ip = 0) ∧
    ∀ i < maxPendingFrames, (q.eth.pending i).frame = 0 → (q.eth.pending i).waitingFor = hop → (q.eth.pending i).len = 0

/-- The card is an Ethernet card, and `kmalloc` returns memory that is not in use. -/
def Proper (q : Queueing) : EthernetCall → Prop
  | .send nic _ _ _ block => nic.driver = some .e1000 ∧ block ≠ 0 ∧ q.eth.memory block = none
  | .receive _ _ nic => nic.driver = some .e1000

def Step (q q' : Queueing) : Prop :=
  ∃ call out, q.Proper call ∧ q.Meets call ∧ call.run q.eth = .ok (q'.eth, out) ∧ q'.waiting = q.after call

end Queueing

variable {len : BitVec 16}

section Queue

variable {eth : Ethernet} {waiting : List Queued}

theorem ethernetSend_card {dst : MacAddr} {ethertype : BitVec 16} {payload : List Byte} {driver : Option Driver}
    (card : driver = some .e1000) (short : 14 + len.toNat < 2 ^ 16) :
    ethernetSend eth dst ethertype payload len driver = .ok (ethernetFrame dst eth.mac ethertype (payload.take len.toNat)) := by
  have total : ¬(14 + len).toNat < 14 + len.toNat := by
    rw [BitVec.toNat_add, show (14 : BitVec 16).toNat = 14 from rfl, Nat.mod_eq_of_lt short]
    omega
  rw [ethernetSend, if_neg (not_not.mpr card), if_neg total]
  rfl

variable {i : Nat}

theorem Ethernet.queuedAt_ready {bytes : List Byte} (used : (eth.pending i).frame ≠ 0) (ready : eth.Ready (eth.pending i) bytes) :
    eth.queuedAt i = some ⟨(eth.pending i).waitingFor, bytes⟩ := by
  rw [Ethernet.queuedAt, if_neg used, ready.stored]
  rfl

/-- The slot that `get_pending_slot` returns is used for a new frame. -/
theorem Ethernet.Queue.add (queue : eth.Queue waiting) {k block : Nat} {gateway : Ipv4Addr} {driver : Option Driver}
    {bytes : List Byte} (inside : k < maxPendingFrames) (free : (eth.pending k).frame = 0) (null : block ≠ 0)
    (fresh : eth.memory block = none) (ready : bytes.take len.toNat = bytes ∧ len ≠ 0 ∧ 14 + len.toNat < 2 ^ 16 ∧ driver = some .e1000) :
    ((eth.store block bytes).setPending k ⟨gateway, driver, block, len⟩).Queue (waiting ++ [⟨gateway, bytes⟩]) := by
  generalize made : (eth.store block bytes).setPending k ⟨gateway, driver, block, len⟩ = eth'
  have here : eth'.pending k = ⟨gateway, driver, block, len⟩ := by
    rw [← made]
    exact update_self ..
  have there {i : Nat} (other : i ≠ k) : eth'.pending i = eth.pending i := by
    rw [← made]
    exact update_of_ne other ..
  have stored : eth'.memory block = some bytes := by
    rw [← made]
    exact update_self ..
  have kept {addr : Nat} (other : addr ≠ block) : eth'.memory addr = eth.memory addr := by
    rw [← made]
    exact update_of_ne other ..
  -- the frames in use lie elsewhere
  have away {i : Nat} (below : i < maxPendingFrames) (used : (eth.pending i).frame ≠ 0) : (eth.pending i).frame ≠ block := by
    intro same
    obtain ⟨old, held⟩ := queue.ready i below used
    have clash := held.stored
    rw [same, fresh] at clash
    cases clash
  refine ⟨fun i below used => ?_, fun i below j bound used same => ?_, ?_⟩
  · by_cases new : i = k
    · rw [new, here]
      exact ⟨bytes, stored, ready.1, ready.2.1, ready.2.2.1, ready.2.2.2⟩
    · rw [there new] at used ⊢
      obtain ⟨old, held⟩ := queue.ready i below used
      exact ⟨old, { held with stored := (kept (away below used)).trans held.stored }⟩
  · by_cases new : i = k <;> by_cases late : j = k
    · rw [new, late]
    · rw [new, here, there late] at same
      have used : (eth.pending j).frame ≠ 0 := same ▸ null
      exact absurd same.symm (away bound used)
    · rw [there new] at used same
      rw [late, here] at same
      exact absurd same (away below used)
    · rw [there new] at used same
      rw [there late] at same
      exact queue.apart i below j bound used same
  · have empty : eth.queuedAt k = none := if_pos free
    have filled : eth'.queuedAt k = some ⟨gateway, bytes⟩ := by
      rw [Ethernet.queuedAt, here, if_neg null, stored]
      rfl
    have others : ∀ i < maxPendingFrames, i ≠ k → eth'.queuedAt i = eth.queuedAt i := by
      intro i below other
      rw [Ethernet.queuedAt, Ethernet.queuedAt, there other]
      by_cases used : (eth.pending i).frame = 0
      · rw [if_pos used, if_pos used]
      · rw [if_neg used, if_neg used, kept (away below used)]
    exact (perm_append_singleton _ _).trans ((queue.listed.cons _).trans (Slots.contents_fill inside empty filled others).symm)

def PendingFrame.Due (slot : PendingFrame) (hop : Ipv4Addr) : Prop := slot.len ≠ 0 ∧ slot.waitingFor = hop

instance (slot : PendingFrame) (hop : Ipv4Addr) : Decidable (slot.Due hop) := inferInstanceAs (Decidable (_ ∧ _))

/-- After the first `n` slots. -/
structure Flushed (eth : Ethernet) (hop : Ipv4Addr) (mac : MacAddr) (n : Nat) (state : Ethernet × List (List Byte)) : Prop where
  tables : state.1.arpTable = eth.arpTable ∧ state.1.mac = eth.mac
  pending : ∀ i, state.1.pending i = if i < n ∧ (eth.pending i).Due hop then { eth.pending i with frame := 0 } else eth.pending i
  memory : ∀ addr, (∀ i < n, (eth.pending i).Due hop → (eth.pending i).frame ≠ addr) → state.1.memory addr = eth.memory addr
  out : state.2 = ((Slots.contents n eth.queuedAt).filter (·.hop = hop)).map fun frame =>
    ethernetFrame mac eth.mac ethertypeIpv4 frame.bytes

/-- No emptied slot is due. -/
def Ethernet.NoneStale (eth : Ethernet) (hop : Ipv4Addr) : Prop :=
  ∀ i < maxPendingFrames, (eth.pending i).frame = 0 → ¬(eth.pending i).Due hop

theorem Flushed.start (eth : Ethernet) (hop : Ipv4Addr) (mac : MacAddr) : Flushed eth hop mac 0 (eth, []) where
  tables := ⟨rfl, rfl⟩
  pending i := (if_neg fun due => absurd due.1 (Nat.not_lt_zero i)).symm
  memory _ _ := rfl
  out := rfl

section Flushed

variable {hop : Ipv4Addr} {mac : MacAddr} {n : Nat} {state : Ethernet × List (List Byte)}

theorem Flushed.slot (flushed : Flushed eth hop mac n state) : state.1.pending n = eth.pending n := by
  rw [flushed.pending]
  exact if_neg fun due => absurd due.1 (Nat.lt_irrefl n)

theorem Flushed.pending_of_ne (flushed : Flushed eth hop mac n state) (other : i ≠ n) :
    state.1.pending i = if i < n + 1 ∧ (eth.pending i).Due hop then { eth.pending i with frame := 0 } else eth.pending i := by
  rw [flushed.pending]
  exact if_congr (and_congr_left' (by omega)) rfl rfl

theorem Flushed.skip (queue : eth.Queue waiting) (inside : n < maxPendingFrames) (flushed : Flushed eth hop mac n state)
    (other : ¬(eth.pending n).Due hop) : Flushed eth hop mac (n + 1) state := by
  refine ⟨flushed.tables, fun i => ?_, fun addr others => flushed.memory addr fun i before => others i (by omega), ?_⟩
  · by_cases last : i = n
    · rw [last, flushed.slot, if_neg fun due => other due.2]
    · exact flushed.pending_of_ne last
  · have none : (eth.queuedAt n).toList.filter (·.hop = hop) = [] := by
      by_cases used : (eth.pending n).frame = 0
      · rw [Ethernet.queuedAt, if_pos used]
        rfl
      · obtain ⟨bytes, ready⟩ := queue.ready n inside used
        have elsewhere : (eth.pending n).waitingFor ≠ hop := fun same => other ⟨ready.nonempty, same⟩
        rw [Ethernet.queuedAt_ready used ready]
        simp [elsewhere]
    rw [Slots.contents_succ, filter_append, none, append_nil, ← flushed.out]

section

variable (queue : eth.Queue waiting) (fresh : eth.NoneStale hop) (inside : n < maxPendingFrames)
  (flushed : Flushed eth hop mac n state)
include queue fresh inside flushed

theorem Flushed.transmit (due : (eth.pending n).Due hop) :
    ∃ state', flushFrame hop mac n state = .ok state' ∧ Flushed eth hop mac (n + 1) state' := by
  have used : (eth.pending n).frame ≠ 0 := fun emptied => fresh n inside emptied due
  obtain ⟨bytes, ready⟩ := queue.ready n inside used
  -- no slot before has this frame
  have stored : state.1.memory (eth.pending n).frame = some bytes := by
    rw [flushed.memory, ready.stored]
    intro i before dueBefore same
    have used : (eth.pending i).frame ≠ 0 := fun emptied => fresh i (by omega) emptied dueBefore
    have equal := queue.apart i (by omega) n inside used same
    omega
  have loaded : state.1.load (eth.pending n).frame (eth.pending n).len = .ok bytes := by
    rw [Ethernet.load, stored]
    exact congrArg Except.ok ready.whole
  have sent : ethernetSend state.1 mac ethertypeIpv4 bytes (eth.pending n).len (eth.pending n).driver =
      .ok (ethernetFrame mac eth.mac ethertypeIpv4 bytes) := by
    rw [ethernetSend_card ready.card ready.short, ready.whole, flushed.tables.2]
  have freed : state.1.kfree (eth.pending n).frame =
      .ok { state.1 with memory := update state.1.memory (eth.pending n).frame none } := by
    rw [Ethernet.kfree, stored]
    rfl
  have test : (eth.pending n).len ≠ 0 ∧ (eth.pending n).waitingFor = hop := due
  rw [flushFrame, flushed.slot, if_pos test, loaded, ok_bind, sent, ok_bind, freed]
  -- only the `frame` of the slot is cleared: its length and its hop stay
  refine ⟨_, rfl, flushed.tables, fun i => ?_, fun addr others => ?_, ?_⟩
  · by_cases last : i = n
    · subst last
      rw [if_pos ⟨Nat.lt_succ_self i, due⟩]
      exact update_self ..
    · rw [← flushed.pending_of_ne last]
      exact update_of_ne last ..
  · have other : addr ≠ (eth.pending n).frame := fun same => others n (Nat.lt_succ_self n) due same.symm
    rw [← flushed.memory addr fun i before => others i (by omega)]
    exact update_of_ne other ..
  · rw [Slots.contents_succ, Ethernet.queuedAt_ready used ready, filter_append, map_append, ← flushed.out]
    simp [due.2]

theorem Flushed.step : ∃ state', flushFrame hop mac n state = .ok state' ∧ Flushed eth hop mac (n + 1) state' := by
  by_cases due : (eth.pending n).Due hop
  · exact flushed.transmit queue fresh inside due
  · have test : ¬((eth.pending n).len ≠ 0 ∧ (eth.pending n).waitingFor = hop) := due
    rw [flushFrame, flushed.slot, if_neg test]
    exact ⟨state, rfl, flushed.skip queue inside due⟩

end

end Flushed

section AllFlushed

variable {hop : Ipv4Addr} {mac : MacAddr} {state : Ethernet × List (List Byte)}

section

variable (queue : eth.Queue waiting) (fresh : eth.NoneStale hop)
  (flushed : Flushed eth hop mac maxPendingFrames state) (inside : i < maxPendingFrames)
include queue fresh flushed inside

theorem Flushed.memory_kept (other : ¬(eth.pending i).Due hop) :
    state.1.memory (eth.pending i).frame = eth.memory (eth.pending i).frame := by
  apply flushed.memory
  intro j below due same
  have emptied : (eth.pending j).frame ≠ 0 := fun zero => fresh j below zero due
  have equal := queue.apart j below i inside emptied same
  exact other (equal ▸ due)

omit queue fresh flushed inside in
theorem Flushed.old (flushed : Flushed eth hop mac maxPendingFrames state) (inside : i < maxPendingFrames)
    (used : (state.1.pending i).frame ≠ 0) : ¬(eth.pending i).Due hop ∧ state.1.pending i = eth.pending i := by
  have now := flushed.pending i
  split at now
  next => exact absurd (by rw [now]) used
  next other => exact ⟨fun due => other ⟨inside, due⟩, now⟩

theorem Flushed.queuedAt : (eth.queuedAt i).filter (·.hop ≠ hop) = state.1.queuedAt i := by
  by_cases empty : (eth.pending i).frame = 0
  · have now : (state.1.pending i).frame = 0 := by
      rw [flushed.pending]
      split <;> simp [empty]
    rw [Ethernet.queuedAt, Ethernet.queuedAt, if_pos empty, if_pos now]
    rfl
  · obtain ⟨bytes, ready⟩ := queue.ready i inside empty
    rw [Ethernet.queuedAt_ready empty ready]
    by_cases due : (eth.pending i).Due hop
    · have now : (state.1.pending i).frame = 0 := by
        rw [flushed.pending, if_pos ⟨inside, due⟩]
      rw [Ethernet.queuedAt, if_pos now]
      simp [due.2]
    · have now : state.1.pending i = eth.pending i := by
        rw [flushed.pending]
        exact if_neg fun both => due both.2
      have other : (eth.pending i).waitingFor ≠ hop := fun same => due ⟨ready.nonempty, same⟩
      rw [Ethernet.queuedAt, now, if_neg empty, flushed.memory_kept queue fresh inside due, ready.stored]
      simp [other]

end

theorem Flushed.queue (queue : eth.Queue waiting) (fresh : eth.NoneStale hop)
    (flushed : Flushed eth hop mac maxPendingFrames state) :
    state.1.Queue (waiting.filter (·.hop ≠ hop)) := by
  refine ⟨fun i inside used => ?_, fun i inside j bound used same => ?_, ?_⟩
  · obtain ⟨other, now⟩ := flushed.old inside used
    rw [now] at used ⊢
    obtain ⟨bytes, ready⟩ := queue.ready i inside used
    exact ⟨bytes, { ready with stored := (flushed.memory_kept queue fresh inside other).trans ready.stored }⟩
  · have there : (state.1.pending j).frame ≠ 0 := same ▸ used
    obtain ⟨-, now⟩ := flushed.old inside used
    obtain ⟨-, late⟩ := flushed.old bound there
    rw [now] at used same
    rw [late] at same
    exact queue.apart i inside j bound used same
  · refine (queue.listed.filter _).trans (List.Perm.of_eq ?_)
    refine filter_filterMap.trans ?_
    apply Slots.contents_congr
    intro i inside
    exact flushed.queuedAt queue fresh inside

end AllFlushed

theorem ethernetDriverFlushPending_returns (queue : eth.Queue waiting) {hop : Ipv4Addr} {mac : MacAddr}
    (known : arpTableLookup eth hop = some mac) (fresh : eth.NoneStale hop) :
    ∃ eth' out, ethernetDriverFlushPending eth hop = .ok (eth', out) ∧ arpTableLookup eth' hop = some mac ∧
      eth'.Queue (waiting.filter (·.hop ≠ hop)) ∧
      out.Perm ((waiting.filter (·.hop = hop)).map fun frame => ethernetFrame mac eth.mac ethertypeIpv4 frame.bytes) := by
  rw [ethernetDriverFlushPending, known]
  obtain ⟨⟨eth', out⟩, ret, flushed⟩ | ⟨stop, -, ⟨⟩⟩ := forRange_rule (Flushed eth hop mac) (fun _ => False)
    (n := maxPendingFrames) (Nat.zero_add maxPendingFrames)
    (fun i state _ inside flushed => .inl (flushed.step queue fresh inside)) (Flushed.start eth hop mac)
  refine ⟨eth', out, ret, ?_, flushed.queue queue fresh, ?_⟩
  · have table : eth'.arpTable = eth.arpTable := flushed.tables.1
    rw [← known, arpTableLookup, arpTableLookup, table]
  · have all : out = _ := flushed.out
    rw [all]
    exact ((queue.listed.filter _).map _).symm

theorem arpTableLookup_add {ip : Ipv4Addr} (mac : MacAddr)
    (room : (arpTableLookup eth ip).isSome ∨ ∃ i < arpTableSize, (eth.arpTable i).ip = 0) :
    ∃ found, arpTableLookup (arpTableAdd eth ip mac) ip = some found := by
  rw [← isSome_iff_exists]
  rw [arpTableAdd]
  split
  next k free =>
    rw [arpTableLookup]
    split
    next => rfl
    next =>
      have inside := mem_of_find?_eq_some free
      rw [isSome_map, find?_isSome]
      exact ⟨k, inside, by simp⟩
  next full =>
    -- nothing was added, so the sender has to be known from before
    rcases room with known | ⟨i, inside, free⟩
    · exact known
    · have taken := find?_eq_none.mp full i (mem_range.mpr inside)
      exact absurd free (by simpa using taken)

theorem arpTableAdd_keeps (eth : Ethernet) (ip : Ipv4Addr) (mac : MacAddr) : (arpTableAdd eth ip mac).pending = eth.pending ∧
    (arpTableAdd eth ip mac).memory = eth.memory ∧ (arpTableAdd eth ip mac).mac = eth.mac := by
  rw [arpTableAdd]
  split
  next => exact ⟨rfl, rfl, rfl⟩
  next => exact ⟨rfl, rfl, rfl⟩

theorem Ethernet.Queue.arpTableAdd (queue : eth.Queue waiting) (ip : Ipv4Addr) (mac : MacAddr) :
    (arpTableAdd eth ip mac).Queue waiting := by
  obtain ⟨pending, memory, -⟩ := arpTableAdd_keeps eth ip mac
  have same : (Net.arpTableAdd eth ip mac).queuedAt = eth.queuedAt := by
    funext i
    rw [Ethernet.queuedAt, Ethernet.queuedAt, pending, memory]
  refine ⟨fun i inside => ?_, ?_, ?_⟩
  · rw [pending]
    intro used
    obtain ⟨bytes, ready⟩ := queue.ready i inside used
    exact ⟨bytes, { ready with stored := memory ▸ ready.stored }⟩
  · rw [pending]
    exact queue.apart
  · rw [same]
    exact queue.listed

end Queue

namespace Queueing

variable {q : Queueing}

theorem returns_send (queue : q.eth.Queue q.waiting) {nic : Nic} {data : List Byte} {gateway : Ipv4Addr} {block : Nat}
    (proper : q.Proper (.send nic data len gateway block)) (meets : q.Meets (.send nic data len gateway block)) :
    ∃ eth' out, ethernetDriverSend q.eth nic data len gateway block = .ok (eth', out) ∧
      q.Transmits eth' out (.send nic data len gateway block) ∧ eth'.Queue (q.after (.send nic data len gateway block)) := by
  obtain ⟨card, null, fresh⟩ := proper
  obtain ⟨short, needs⟩ := meets
  simp only [ethernetDriverSend, after, Transmits]
  cases known : arpTableLookup q.eth gateway with
  | some mac =>
    dsimp only
    rw [ethernetSend_card card short]
    exact ⟨_, _, rfl, rfl, queue⟩
  | none =>
    obtain ⟨nonempty, i, inside, free⟩ := needs known
    obtain ⟨k, slot⟩ : ∃ k, getPendingSlot q.eth = some k := by
      rw [← isSome_iff_exists, getPendingSlot, find?_isSome]
      exact ⟨i, mem_range.mpr inside, decide_eq_true free⟩
    have below : k < maxPendingFrames := mem_range.mp (mem_of_find?_eq_some slot)
    have empty : (q.eth.pending k).frame = 0 := by simpa using find?_some slot
    rw [slot]
    dsimp only
    rw [if_neg nonempty, if_neg nonempty, arpSendIpv4, ethernetSend_card card (by decide)]
    refine ⟨_, _, rfl, ⟨_, _, rfl⟩, ?_⟩
    exact queue.add below empty null fresh ⟨by rw [take_take, Nat.min_self], nonempty, short, card⟩

theorem returns_receive (queue : q.eth.Queue q.waiting) {data : List Byte} {nic : Nic}
    (proper : q.Proper (.receive data len nic)) (meets : q.Meets (.receive data len nic)) :
    ∃ eth' out, arpReceive q.eth data len nic = .ok (eth', out) ∧
      q.Transmits eth' out (.receive data len nic) ∧ eth'.Queue (q.after (.receive data len nic)) := by
  have card : nic.driver = some .e1000 := proper
  simp only [arpReceive, after, Transmits]
  cases sender : replySender data len with
  | some hop =>
    obtain ⟨room, emptied⟩ := meets hop sender
    rw [replySender] at sender
    split at sender
    next reply =>
      obtain rfl := some.inj sender
      rw [if_neg (Nat.not_lt.mpr reply.1)]
      rw [if_pos reply.2]
      generalize (ArpPacketIpv4.ofBytes data).senderMacAddress = mac
      generalize (ArpPacketIpv4.ofBytes data).senderIpAddress = hop at *
      -- an older entry for the sender hides the new one, so `found` need not be `mac`
      obtain ⟨found, known⟩ := arpTableLookup_add mac room
      obtain ⟨pending, -, own⟩ := arpTableAdd_keeps q.eth hop mac
      have fresh : (arpTableAdd q.eth hop mac).NoneStale hop := by
        intro i inside
        rw [pending]
        exact fun zero due => due.1 (emptied i inside zero due.2)
      obtain ⟨eth', out, ret, still, queue', sent⟩ := ethernetDriverFlushPending_returns (queue.arpTableAdd hop mac) known fresh
      rw [own] at sent
      exact ⟨eth', out, ret, ⟨found, still, sent⟩, queue'⟩
    next => cases sender
  | none =>
    rw [replySender] at sender
    split at sender
    next => cases sender
    next other =>
      split
      next => exact ⟨_, _, rfl, .inl rfl, queue⟩
      next long =>
        rw [if_neg fun reply => other ⟨Nat.not_lt.mp long, reply⟩]
        split
        next =>
          split
          next =>
            rw [arpReplyIpv4, ethernetSend_card card (by decide)]
            exact ⟨_, _, rfl, .inr ⟨_, _, rfl⟩, queue⟩
          next => exact ⟨_, _, rfl, .inl rfl, queue⟩
        next => exact ⟨_, _, rfl, .inl rfl, queue⟩

theorem returns (queue : q.eth.Queue q.waiting) {call : EthernetCall} (proper : q.Proper call) (meets : q.Meets call) :
    ∃ eth' out, call.run q.eth = .ok (eth', out) ∧ q.Transmits eth' out call ∧ eth'.Queue (q.after call) := by
  cases call with
  | send nic data len gateway block => exact returns_send queue proper meets
  | receive data len nic => exact returns_receive queue proper meets

def boot (mac : MacAddr) : Queueing := ⟨⟨fun _ => ⟨0, fun _ => 0⟩, fun _ => ⟨0, none, 0, 0⟩, fun _ => none, mac⟩, []⟩

theorem queue_boot (mac : MacAddr) : (boot mac).eth.Queue (boot mac).waiting where
  ready _ _ used := absurd rfl used
  apart _ _ _ _ used := absurd rfl used
  listed := by
    have empty : Slots.contents maxPendingFrames (boot mac).eth.queuedAt = [] := filterMap_eq_nil_iff.mpr fun _ _ => rfl
    rw [empty]
    exact .refl _

theorem queue_step {q' : Queueing} (queue : q.eth.Queue q.waiting) (step : Step q q') : q'.eth.Queue q'.waiting := by
  obtain ⟨call, out, proper, meets, ret, same⟩ := step
  obtain ⟨eth', out', again, -, queue'⟩ := returns queue proper meets
  rw [ret] at again
  cases again
  rwa [same]

end Queueing

/-- In a run whose calls meet the condition, the next one returns and transmits what it should. -/
theorem waiting_frames_transmitted_once (mac : MacAddr) (q : Queueing) (run : ReflTransGen Queueing.Step (Queueing.boot mac) q)
    (call : EthernetCall) (proper : q.Proper call) (meets : q.Meets call) :
    ∃ eth' out, call.run q.eth = .ok (eth', out) ∧ q.Transmits eth' out call := by
  have queue := invariant_of_run (fun q : Queueing => q.eth.Queue q.waiting) (fun _ _ queue step => Queueing.queue_step queue step)
    run (Queueing.queue_boot mac)
  obtain ⟨eth', out, returned, transmits, -⟩ := Queueing.returns queue proper meets
  exact ⟨eth', out, returned, transmits⟩

def ethernetCard : Nic := ⟨1, ipv4 10 0 2 15, some .e1000⟩

def quiet : Queueing := .boot fun _ => 1

def sendByte : EthernetCall := .send ethernetCard [7] 1 (ipv4 10 0 2 2) 1

def oneWaiting : Queueing :=
  ⟨(quiet.eth.store 1 [7]).setPending 0 ⟨ipv4 10 0 2 2, some .e1000, 1, 1⟩, [⟨ipv4 10 0 2 2, [7]⟩]⟩

def reply : EthernetCall :=
  .receive (arpPacket ⟨quiet.eth.arpTable, quiet.eth.pending, quiet.eth.memory, fun _ => 2⟩ ⟨0, ipv4 10 0 2 2, none⟩ arpReply
    (fun _ => 1) (ipv4 10 0 2 15)).bytes 28 ethernetCard

def transmitted : Ethernet → List EthernetCall → Outcome (List Nat)
  | _, [] => pure []
  | eth, call :: calls => do
    let (eth, out) ← call.run eth
    pure (out.length :: (← transmitted eth calls))

/-- The first reply transmits the frame, and the second one reads it through a null pointer. -/
theorem second_reply_reads_null : transmitted quiet.eth [sendByte, reply] = .ok [1, 1] ∧
    transmitted quiet.eth [sendByte, reply, reply] = .error (.outOfBounds 0) := by
  decide +kernel

/-- The first reply transmits the byte that waits to the address of its sender. -/
theorem first_reply_transmits : ∃ eth' out, reply.run oneWaiting.eth = .ok (eth', out) ∧ oneWaiting.Transmits eth' out reply := by
  have room : oneWaiting.Meets reply := by
    intro hop _
    refine ⟨.inr ⟨0, by decide, rfl⟩, fun i _ free _ => ?_⟩
    by_cases first : i = 0
    · subst first
      cases free
    · have unused : oneWaiting.eth.pending i = ⟨0, none, 0, 0⟩ := update_of_ne first ..
      rw [unused]
  have sent : Queueing.Step quiet oneWaiting :=
    ⟨sendByte, _, ⟨rfl, by decide, rfl⟩, ⟨by decide, fun _ => ⟨by decide, 0, by decide, rfl⟩⟩, rfl, rfl⟩
  exact waiting_frames_transmitted_once (fun _ => 1) oneWaiting (.single sent) reply rfl room

end Xos.Net
