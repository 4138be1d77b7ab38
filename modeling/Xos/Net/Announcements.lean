import Xos.Lib.AppendTable
import Xos.Net.Pending

/-!
# What ARP replies announce

The ARP table keeps the first 16 replies whose sender is not 0. A reply with a new address for a known sender changes
nothing, and one from an unknown sender panics once the table is full.
-/
namespace Xos.Net

open Lib Relation Outcome List ArpPacketIpv4 Option

def announcement (data : List Byte) (len : BitVec 16) : Option ArpEntry :=
  (replySender data len).map fun ip => ⟨ip, (ofBytes data).senderMacAddress⟩

/-- The panic in `ethernet_driver_flush_pending`. -/
def flushPanic : Stop := .panic "Error"

structure Learning where
  eth : Ethernet
  heard : List ArpEntry

namespace Learning

def announced : EthernetCall → Option ArpEntry
  | .send .. => none
  | .receive data len _ => announcement data len

def Step (l l' : Learning) : Prop :=
  ∃ call out, call.run l.eth = .ok (l'.eth, out) ∧ l'.heard = l.heard ++ (announced call).toList

def boot (mac : MacAddr) : Learning := ⟨(Queueing.boot mac).eth, []⟩

def recorded (heard : List ArpEntry) : List ArpEntry := (heard.filter fun entry => entry.ip ≠ 0).take arpTableSize

/-- The table after a packet, when `ethernet_driver_flush_pending` is called. -/
def tableAfter (l : Learning) (data : List Byte) (len : BitVec 16) : Ethernet :=
  match announcement data len with
  | some entry => arpTableAdd l.eth entry.ip entry.mac
  | none => l.eth

/-- The packet does not lead to the panic, and the address it announces is the one that is then found. -/
def Heeds (l : Learning) (data : List Byte) (len : BitVec 16) (nic : Nic) : Prop :=
  arpReceive l.eth data len nic ≠ .error flushPanic ∧
    ∀ entry, announcement data len = some entry → entry.ip ≠ 0 → entry.ip ≠ 0xFFFFFFFF →
      arpTableLookup (l.tableAfter data len) entry.ip = some entry.mac

def Takes (heard : List ArpEntry) (entry : ArpEntry) : Prop :=
  match (recorded heard).find? (fun known => known.ip = entry.ip) with
  | some known => known.mac = entry.mac
  | none => (recorded heard).length < arpTableSize

/-- A packet that is no reply, or a reply from the broadcast address, or one that the table takes. -/
def Meets (l : Learning) (data : List Byte) (len : BitVec 16) : Prop :=
  ∀ entry, announcement data len = some entry → entry.ip ≠ 0xFFFFFFFF → Takes l.heard entry

end Learning

variable {entry : ArpEntry}

section Receive

variable {eth eth' : Ethernet} {data : List Byte} {len : BitVec 16} {nic : Nic} {out : List (List Byte)}

theorem arpReceive_reply (heard : announcement data len = some entry) :
    arpReceive eth data len nic = ethernetDriverFlushPending (arpTableAdd eth entry.ip entry.mac) entry.ip := by
  obtain ⟨ip, sender, rfl⟩ := map_eq_some_iff.mp heard
  rw [replySender] at sender
  split at sender
  next reply =>
    obtain rfl := some.inj sender
    rw [arpReceive, if_neg (Nat.not_lt.mpr reply.1)]
    rw [if_pos reply.2]
  next => cases sender

theorem ethernetSend_no_panic (eth : Ethernet) (dst : MacAddr) (ethertype : BitVec 16)
    (payload : List Byte) (len : BitVec 16) (driver : Option Driver) :
    (∃ frame, ethernetSend eth dst ethertype payload len driver = .ok frame) ∨
      ∃ n, ethernetSend eth dst ethertype payload len driver = .error (.outOfBounds n) := by
  rw [ethernetSend]
  split
  next => exact .inr ⟨_, rfl⟩
  next =>
    split
    next => exact .inr ⟨_, rfl⟩
    next => exact .inl ⟨_, rfl⟩

theorem arpReceive_other (eth : Ethernet) (nic : Nic) (other : announcement data len = none) :
    (∃ out, arpReceive eth data len nic = .ok (eth, out)) ∨ ∃ n, arpReceive eth data len nic = .error (.outOfBounds n) := by
  have unsent : replySender data len = none := map_eq_none_iff.mp other
  rw [replySender] at unsent
  rw [arpReceive]
  split at unsent
  next => cases unsent
  next none =>
    split
    next => exact .inl ⟨_, rfl⟩
    next long =>
      rw [if_neg fun reply => none ⟨Nat.not_lt.mp long, reply⟩]
      split
      next =>
        split
        next =>
          rw [arpReplyIpv4]
          rcases ethernetSend_no_panic eth (ofBytes data).senderMacAddress ethertypeArp
            (arpPacket eth nic arpReply (ofBytes data).senderMacAddress (ofBytes data).senderIpAddress).bytes
            28 nic.driver with ⟨frame, sent⟩ | ⟨n, stopped⟩
          · rw [sent]
            exact .inl ⟨_, rfl⟩
          · rw [stopped]
            exact .inr ⟨n, rfl⟩
        next => exact .inl ⟨_, rfl⟩
      next => exact .inl ⟨_, rfl⟩

theorem flushFrame_keeps (hop : Ipv4Addr) (mac : MacAddr) (i : Nat) (state : Ethernet × List (List Byte)) :
    (∃ state', flushFrame hop mac i state = .ok state' ∧ state'.1.arpTable = state.1.arpTable) ∨
      ∃ n, flushFrame hop mac i state = .error (.outOfBounds n) := by
  rw [flushFrame]
  split
  next =>
    rw [Ethernet.load, Ethernet.kfree]
    cases state.1.memory (state.1.pending i).frame with
    | none => exact .inr ⟨_, rfl⟩
    | some bytes =>
      dsimp only [pure_eq_ok, ok_bind]
      rcases ethernetSend_no_panic state.1 mac ethertypeIpv4 (bytes.take (state.1.pending i).len.toNat) (state.1.pending i).len
        (state.1.pending i).driver with ⟨frame, sent⟩ | ⟨n, stopped⟩
      · rw [sent]
        exact .inl ⟨_, rfl, rfl⟩
      · rw [stopped]
        exact .inr ⟨n, rfl⟩
  next => exact .inl ⟨_, rfl, rfl⟩

theorem flush_known {hop : Ipv4Addr} {mac : MacAddr} (known : arpTableLookup eth hop = some mac) :
    (∃ eth' out, ethernetDriverFlushPending eth hop = .ok (eth', out) ∧ eth'.arpTable = eth.arpTable) ∨
      ∃ n, ethernetDriverFlushPending eth hop = .error (.outOfBounds n) := by
  rw [ethernetDriverFlushPending, known]
  have looped : (∃ state, Outcome.forRange (flushFrame hop mac) maxPendingFrames 0 (eth, []) = .ok state ∧ state.1.arpTable = eth.arpTable) ∨
      ∃ stop, Outcome.forRange (flushFrame hop mac) maxPendingFrames 0 (eth, []) = .error stop ∧ ∃ n, stop = .outOfBounds n := by
    refine Outcome.forRange_rule (fun _ (state : Ethernet × List (List Byte)) => state.1.arpTable = eth.arpTable) _ (Nat.zero_add maxPendingFrames)
      (fun i state _ _ same => ?_) rfl
    rcases flushFrame_keeps hop mac i state with ⟨state', ret, kept⟩ | ⟨n, stopped⟩
    · exact .inl ⟨state', ret, kept.trans same⟩
    · exact .inr ⟨_, stopped, n, rfl⟩
  rcases looped with ⟨⟨eth', out⟩, ret, same⟩ | ⟨stop, stopped, n, rfl⟩
  · exact .inl ⟨eth', out, ret, same⟩
  · exact .inr ⟨n, stopped⟩

theorem flush_panics_iff {hop : Ipv4Addr} : ethernetDriverFlushPending eth hop = .error flushPanic ↔
    arpTableLookup eth hop = none := by
  cases known : arpTableLookup eth hop with
  | none =>
    rw [ethernetDriverFlushPending, known]
    exact iff_of_true rfl rfl
  | some mac =>
    refine iff_of_false ?_ (by simp)
    rcases flush_known known with ⟨eth', out, ret, -⟩ | ⟨n, stopped⟩
    · rw [ret]
      exact fun same => by cases same
    · rw [stopped]
      exact fun same => by cases same

/-- A packet that `arp_receive` returns from leaves the table with its announcement added. -/
theorem arpReceive_table (l : Learning) (ret : arpReceive l.eth data len nic = .ok (eth', out)) :
    eth'.arpTable = (l.tableAfter data len).arpTable := by
  rw [Learning.tableAfter]
  cases heard : announcement data len with
  | none =>
    rcases arpReceive_other l.eth nic heard with ⟨out', same⟩ | ⟨n, stopped⟩
    · rw [ret] at same
      cases same
      rfl
    · rw [stopped] at ret
      cases ret
  | some entry =>
    rw [arpReceive_reply heard] at ret
    cases known : arpTableLookup (arpTableAdd l.eth entry.ip entry.mac) entry.ip with
    | none =>
      rw [flush_panics_iff.mpr known] at ret
      cases ret
    | some mac =>
      rcases flush_known known with ⟨_, _, same, kept⟩ | ⟨n, stopped⟩
      · rw [ret] at same
        cases same
        exact kept
      · rw [stopped] at ret
        cases ret

theorem ethernetDriverSend_table {packet : List Byte} {gateway : Ipv4Addr} {block : Nat}
    (ret : ethernetDriverSend eth nic packet len gateway block = .ok (eth', out)) : eth'.arpTable = eth.arpTable := by
  rw [ethernetDriverSend] at ret
  split at ret
  next =>
    obtain ⟨frame, -, same⟩ := of_bind ret
    cases same
    rfl
  next =>
    split at ret
    next => cases ret
    next =>
      obtain ⟨request, -, same⟩ := of_bind ret
      cases same
      split <;> rfl

end Receive

abbrev Ethernet.Recorded (eth : Ethernet) (entries : List ArpEntry) : Prop :=
  AppendTable.Records ArpEntry.ip 0 arpTableSize eth.arpTable entries

section Recorded

variable {eth : Ethernet} {entries : List ArpEntry}

theorem Ethernet.Recorded.lookup (records : eth.Recorded entries) {ip : Ipv4Addr} (real : ip ≠ 0) (single : ip ≠ 0xFFFFFFFF) :
    arpTableLookup eth ip = (entries.find? fun entry => entry.ip = ip).map ArpEntry.mac := by
  rw [arpTableLookup, if_neg single, ← records.find_key real, Option.map_map]
  rfl

theorem Ethernet.Recorded.lookup_zero (records : eth.Recorded entries) :
    (arpTableLookup eth 0).isSome ↔ entries.length < arpTableSize := by
  rw [arpTableLookup, if_neg (by decide), isSome_map, records.find_unused]
  split
  next room => simp [room]
  next full => simp [full]

theorem Ethernet.Recorded.add (records : eth.Recorded entries) (entry : ArpEntry) :
    (arpTableAdd eth entry.ip entry.mac).Recorded ((entries ++ if entry.ip = 0 then [] else [entry]).take arpTableSize) := by
  have bound : entries.take arpTableSize = entries := take_of_length_le records.fits
  rw [arpTableAdd, records.find_unused]
  by_cases room : entries.length < arpTableSize
  · rw [if_pos room]
    by_cases zero : entry.ip = 0
    · rw [if_pos zero, append_nil, bound]
      exact records.scribble (Nat.le_refl _) zero
    · rw [if_neg zero, take_of_length_le (by rw [length_append, length_singleton]; exact room)]
      exact records.append room zero
  · rw [if_neg room, take_append_of_le_length (Nat.not_lt.mp room), bound]
    exact records

end Recorded

namespace Learning

variable {l : Learning}

theorem recorded_append (heard : List ArpEntry) (entry : ArpEntry) :
    recorded (heard ++ [entry]) = (recorded heard ++ if entry.ip = 0 then [] else [entry]).take arpTableSize := by
  have last : [entry].filter (fun e => decide (e.ip ≠ 0)) = if entry.ip = 0 then [] else [entry] := by
    by_cases zero : entry.ip = 0
    · rw [if_pos zero, filter_cons_of_neg (by simp [zero]), filter_nil]
    · rw [if_neg zero, filter_cons_of_pos (by simpa using zero), filter_nil]
  rw [recorded, recorded, filter_append, last]
  generalize heard.filter (fun e => decide (e.ip ≠ 0)) = all
  generalize (if entry.ip = 0 then [] else [entry]) = more
  rw [take_append, take_append, take_take, Nat.min_self, length_take]
  congr 2
  omega

theorem recorded_boot (mac : MacAddr) : (boot mac).eth.Recorded (recorded (boot mac).heard) :=
  .empty fun _ _ => rfl

theorem recorded_step {l' : Learning} (records : l.eth.Recorded (recorded l.heard)) (step : Step l l') :
    l'.eth.Recorded (recorded l'.heard) := by
  obtain ⟨call, out, ret, heard⟩ := step
  rw [heard]
  cases call with
  | send nic data len gateway block =>
    have same := ethernetDriverSend_table ret
    rw [Ethernet.Recorded, same, announced, toList_none, append_nil]
    exact records
  | receive data len nic =>
    have same := arpReceive_table l ret
    rw [Ethernet.Recorded, same, announced, tableAfter]
    cases announcement data len with
    | none =>
      rw [toList_none, append_nil]
      exact records
    | some entry =>
      rw [toList_some, recorded_append]
      exact records.add entry

section

variable (records : l.eth.Recorded (recorded l.heard))
include records

theorem lookup_after (real : entry.ip ≠ 0) (single : entry.ip ≠ 0xFFFFFFFF) :
    arpTableLookup (arpTableAdd l.eth entry.ip entry.mac) entry.ip =
      match (recorded l.heard).find? (fun known => known.ip = entry.ip) with
      | some known => some known.mac
      | none => if (recorded l.heard).length < arpTableSize then some entry.mac else none := by
  rw [(records.add entry).lookup real single, if_neg real]
  have fits := records.fits
  generalize recorded l.heard = entries at fits
  by_cases room : entries.length < arpTableSize
  · rw [take_of_length_le (by rw [length_append, length_singleton]; exact room), find?_append]
    cases entries.find? (fun known => decide (known.ip = entry.ip)) with
    | some known => rfl
    | none =>
      rw [if_pos room]
      simp
  · rw [take_append_of_le_length (Nat.not_lt.mp room), take_of_length_le fits, if_neg room]
    cases entries.find? (fun known => decide (known.ip = entry.ip)) with
    | some known => rfl
    | none => rfl

theorem takes_zero (zero : entry.ip = 0) : Takes l.heard entry ↔ (recorded l.heard).length < arpTableSize := by
  have none : (recorded l.heard).find? (fun known => decide (known.ip = entry.ip)) = none := by
    rw [find?_eq_none, zero]
    intro known mem
    simpa using records.keyed known mem
  rw [Takes, none]

theorem heeds_iff (data : List Byte) (len : BitVec 16) (nic : Nic) : l.Heeds data len nic ↔ l.Meets data len := by
  cases heard : announcement data len with
  | none =>
    refine iff_of_true ⟨?_, fun _ same => ?_⟩ fun _ same => ?_
    · rcases arpReceive_other l.eth nic heard with ⟨out, same⟩ | ⟨n, stopped⟩
      · rw [same]
        exact fun same => by cases same
      · rw [stopped]
        exact fun same => by cases same
    all_goals cases heard.symm.trans same
  | some entry =>
    have only {P : ArpEntry → Prop} : (∀ e, some entry = some e → P e) ↔ P entry :=
      ⟨fun all => all entry rfl, fun holds e same => some.inj same ▸ holds⟩
    rw [Heeds, Meets, heard, only, only, tableAfter, heard, arpReceive_reply heard, Ne, flush_panics_iff]
    by_cases single : entry.ip = 0xFFFFFFFF
    · have known : arpTableLookup (arpTableAdd l.eth entry.ip entry.mac) entry.ip = some broadcastMac := if_pos single
      rw [known]
      exact iff_of_true ⟨by simp, fun _ other => absurd single other⟩ fun other => absurd single other
    · by_cases zero : entry.ip = 0
      · have unused : arpTableLookup (arpTableAdd l.eth entry.ip entry.mac) entry.ip ≠ none ↔ (recorded l.heard).length < arpTableSize := by
          have added := records.add entry
          rw [if_pos zero, append_nil, take_of_length_le records.fits] at added
          rw [ne_none_iff_isSome, ← added.lookup_zero, zero]
        rw [takes_zero records zero, ← unused]
        exact ⟨fun both _ => both.1, fun known => ⟨known single, fun real => absurd zero real⟩⟩
      · rw [lookup_after records zero single, Takes, imp_iff_right single, imp_iff_right zero, imp_iff_right single]
        cases (recorded l.heard).find? (fun known => decide (known.ip = entry.ip)) with
        | some known => simp
        | none =>
          split
          next => simp
          next => simp

end

end Learning

/-- In every run of sends and ARP packets: a packet does not lead to the panic, and the address it announces is the one
that is then found, just when the table has taken the same address for the sender or has room for a new one. -/
theorem announcement_heeded_iff (mac : MacAddr) (l : Learning) (run : ReflTransGen Learning.Step (Learning.boot mac) l)
    (data : List Byte) (len : BitVec 16) (nic : Nic) :
    (l.Heeds data len nic ↔ l.Meets data len) ∧
      ∀ eth' out, arpReceive l.eth data len nic = .ok (eth', out) → eth'.arpTable = (l.tableAfter data len).arpTable := by
  have records := invariant_of_run (fun l : Learning => l.eth.Recorded (Learning.recorded l.heard))
    (fun _ _ records step => Learning.recorded_step records step) run (Learning.recorded_boot mac)
  exact ⟨Learning.heeds_iff records data len nic, fun _ _ returned => arpReceive_table l returned⟩

def replyFrom (ip : Ipv4Addr) (byte : Byte) : List Byte :=
  (mk (htons 1) (htons ethertypeIpv4) 6 4 (htons arpReply) (fun _ => byte) ip (fun _ => 1) (ipv4 10 0 2 15)).bytes

def afterReplies (eth : Ethernet) (replies : List (List Byte)) : Outcome Ethernet :=
  replies.foldlM (fun eth data => do pure (← arpReceive eth data 28 ethernetCard).1) eth

def gatewayMac (replies : List (List Byte)) : Outcome (Option (List Byte)) := do
  pure ((arpTableLookup (← afterReplies quiet.eth replies) (ipv4 10 0 2 2)).map List.ofFn)

/-- The 17th sender leads to the panic, and a second address of a sender is not taken. -/
theorem later_announcements_lost :
    afterReplies quiet.eth ((List.range 17).map fun i => replyFrom (ipv4 10 0 0 (i + 1)) 2) = .error flushPanic ∧
      gatewayMac [replyFrom (ipv4 10 0 2 2) 2, replyFrom (ipv4 10 0 2 2) 3] = .ok (some [2, 2, 2, 2, 2, 2]) := by
  have panics : (afterReplies quiet.eth ((List.range 17).map fun i => replyFrom (ipv4 10 0 0 (i + 1)) 2)).map (fun _ => ()) =
      .error flushPanic := by decide +kernel
  refine ⟨?_, by decide +kernel⟩
  generalize afterReplies quiet.eth ((List.range 17).map fun i => replyFrom (ipv4 10 0 0 (i + 1)) 2) = result at panics
  cases result with
  | ok eth => cases panics
  | error stop => exact congrArg Except.error (Except.error.inj panics)

/-- The first announcement is heeded. -/
theorem first_announcement_heeded : (Learning.boot fun _ => 1).Heeds (replyFrom (ipv4 10 0 2 2) 2) 28 ethernetCard := by
  refine (announcement_heeded_iff (fun _ => 1) _ .refl _ 28 ethernetCard).1.mpr ?_
  intro entry _ _
  exact (by decide : 0 < arpTableSize)

end Xos.Net
