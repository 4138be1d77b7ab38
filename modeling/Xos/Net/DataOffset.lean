import Xos.Net.TcpMachine

/-!
# The data offset of a segment

`tcp_on_data` takes the length of the header from the segment and does not check it. With one beyond the data the
payload is almost 65536 bytes long.
-/
namespace Xos.Net

open Tcp TcpHeader TcpConnection

def TcpHeader.Fits (header : TcpHeader) (dataLen : BitVec 16) : Prop := 20 ≤ header.len.toNat ∧ header.len.toNat ≤ dataLen.toNat

/-- Every payload index is below the length of the data, and a header that does not fit changes nothing. -/
def Received.Checked (received : Received) (t : Tcp) (data : Nat → Byte) (dataLen : BitVec 16) : Prop :=
  (∀ k ∈ received.reads, k < dataLen.toNat) ∧
    (¬(ofMemory data).Fits dataLen → ∀ i, received.tcp.conns i = t.conns i)

/-- A segment that no listener takes, or that has another number than its connection waits for; or, in SYN_SENT, one that
is not the answer to SYN and happens to have the numbers that are there already. -/
def Tcp.Ignores (t : Tcp) (a : Arrival) : Prop :=
  match t.resolve a with
  | none => ¬∃ l k, t.Opens a l k
  | some i => a.header.flags &&& tcpRst = 0 ∧
    ((t.conns i).state ≠ .synSent ∧ htonl a.header.seqNum ≠ (t.conns i).ack ∨
      (t.conns i).state = .synSent ∧ a.header.flags &&& (tcpSyn ||| tcpAck) ≠ tcpSyn ||| tcpAck ∧
        (t.conns i).acknowledge a.header a.payloadLen = t.conns i)

section Offset

variable {t t₁ t' : Tcp} {a : Arrival} {id : BitVec 16} {random : BitVec 32} {flush : Bool} {emitted : Emitted} {i : Nat}

theorem Tcp.ignores_iff (known : t.resolve a = some i) : t.Ignores a ↔ a.header.flags &&& tcpRst = 0 ∧
    ((t.conns i).state ≠ .synSent ∧ htonl a.header.seqNum ≠ (t.conns i).ack ∨
      (t.conns i).state = .synSent ∧ a.header.flags &&& (tcpSyn ||| tcpAck) ≠ tcpSyn ||| tcpAck ∧
        (t.conns i).acknowledge a.header a.payloadLen = t.conns i) := by
  rw [Ignores, known]

theorem Tcp.ignores_iff_of_unknown (unknown : t.resolve a = none) : t.Ignores a ↔ ¬∃ l k, t.Opens a l k := by
  rw [Ignores, unknown]

theorem TcpConnection.advance_ack (conn : TcpConnection) (flags : Byte) (payload : List Byte) :
    (conn.advance flags payload).ack = conn.ack := by
  rcases conn.advance_cases flags payload with ⟨state, seq, same, -⟩ | ⟨-, -, same⟩
  · rw [same]
    split <;> rfl
  · rw [same]
    rfl

theorem TcpConnection.acknowledge_ack {conn : TcpConnection} (idle : conn.state ≠ .synSent)
    (header : TcpHeader) {payloadLen : BitVec 16}
    (some : payloadLen ≠ 0) : (conn.acknowledge header payloadLen).ack ≠ conn.ack := by
  simp only [acknowledge, if_neg idle]
  split
  next => bv_omega
  next => bv_omega

/-- A connection that takes a segment with a payload and does not become established. Its number has moved on, but for SYN_SENT, where
the number that comes in is taken. -/
theorem unchanged_iff_of_advanced (takes : t.Takes a i)
    (stays : (t.conns i).state = .synSent → a.header.flags &&& (tcpSyn ||| tcpAck) ≠ tcpSyn ||| tcpAck)
    (output : (t.setConn i (((t.conns i).acknowledge a.header a.payloadLen).advance a.header.flags a.payload)).Output false t' emitted)
    (some : a.payloadLen ≠ 0) : (∀ i, t'.conns i = t.conns i) ↔ t.Ignores a := by
  rw [ignores_iff takes.known]
  have kept : ((t.conns i).acknowledge a.header a.payloadLen).state = (t.conns i).state := rfl
  by_cases sent : (t.conns i).state = .synSent
  · -- the numbers are all that can have changed
    have same : ((t.conns i).acknowledge a.header a.payloadLen).advance a.header.flags a.payload =
        (t.conns i).acknowledge a.header a.payloadLen := by simp only [advance, kept, sent]
    rw [same] at output
    obtain ⟨ipId, rfl⟩ := output.tables
    constructor
    · intro unchanged
      have now := unchanged i
      exact ⟨takes.plain, .inr ⟨sent, stays sent, (setConn_conns_self ..).symm.trans now⟩⟩
    · rintro ⟨-, ⟨idle, -⟩ | ⟨-, -, numbers⟩⟩ j
      · exact absurd sent idle
      · rw [numbers, setConn_self]
        rfl
  · refine iff_of_false (fun unchanged => ?_) ?_
    · obtain ⟨tail, seq, now⟩ := output.conn i
      rw [setConn_conns_self, unchanged i] at now
      have number := congrArg (·.ack) now
      exact acknowledge_ack sent a.header some (number.trans (advance_ack ..)).symm
    · rintro ⟨-, ⟨-, other⟩ | ⟨now, -⟩⟩
      · exact takes.ordered.elim sent other
      · exact sent now

theorem Delivered.unchanged_iff (delivered : Delivered t a id random t₁ flush)
    (output : t₁.Output flush t' emitted) (some : a.payloadLen ≠ 0) :
    (∀ i, t'.conns i = t.conns i) ↔ t.Ignores a := by
  have quiet (output : t.Output false t' emitted) (j : Nat) : t'.conns j = t.conns j := by
    obtain ⟨ipId, rfl⟩ := output.tables
    rfl
  -- a connection that has been changed in another field than sending does
  have changed {k : Nat} {conn : TcpConnection} (set : t₁.conns k = conn)
      (differs : ∀ tail seq, ({ conn with sendTail := tail, seq := seq } : TcpConnection) ≠ t.conns k) : ¬∀ i, t'.conns i = t.conns i := by
    intro same
    obtain ⟨tail, seq, now⟩ := output.conn k
    rw [set] at now
    exact differs tail seq (now.symm.trans (same k))
  cases delivered with
  | refused unknown closed => exact iff_of_true (quiet output) ((ignores_iff_of_unknown unknown).mpr closed)
  | opened unknown opens =>
    refine iff_of_false (changed (setConn_conns_self ..) fun tail seq same => ?_) fun ignores => ?_
    · have claimed : true = false := (congrArg claimed same).trans (of_freeConn opens.free).2
      cases claimed
    · exact (ignores_iff_of_unknown unknown).mp ignores ⟨_, _, opens⟩
  | reset known rst =>
    refine iff_of_false (changed (setConn_conns_self ..) fun tail seq same => ?_) fun ignores => ?_
    · have claimed : false = true := (congrArg claimed same).trans (of_resolve known).2.1
      cases claimed
    · exact rst ((ignores_iff known).mp ignores).1
  | unordered known plain idle other => exact iff_of_true (quiet output) ((ignores_iff known).mpr ⟨plain, .inl ⟨idle, other⟩⟩)
  | taken takes switched =>
    rename_i i
    have kept : ((t.conns i).acknowledge a.header a.payloadLen).state = (t.conns i).state := rfl
    cases switched with
    | connected state flags =>
      rw [setConn_conns_self, kept] at state
      refine iff_of_false (changed (setConn_conns_self ..) fun tail seq same => ?_) ?_
      · cases (congrArg (·.state) same).trans state
      · rw [ignores_iff takes.known]
        rintro ⟨-, ⟨idle, -⟩ | ⟨-, other, -⟩⟩
        · exact idle state
        · exact other flags
    | accepted state flags listener =>
      rw [setConn_conns_self, kept] at state
      refine iff_of_false (changed (setConn_conns_self ..) fun tail seq same => ?_) ?_
      · cases (congrArg (·.state) same).trans state
      · rw [ignores_iff takes.known]
        rintro ⟨-, ⟨idle, other⟩ | ⟨sent, -⟩⟩
        · exact takes.ordered.elim idle other
        · cases state.symm.trans sent
    | advanced stays =>
      rw [setConn_conns_self, kept] at stays
      rw [setConn_conns_self, setConn_setConn] at output
      exact unchanged_iff_of_advanced takes stays output some

end Offset

theorem Tcp.readsOf_of_ignores {t : Tcp} {a : Arrival} (ignores : t.Ignores a) : t.readsOf a = [] := by
  rw [readsOf]
  rw [Ignores] at ignores
  cases known : t.resolve a with
  | none => rfl
  | some i =>
    rw [known] at ignores
    refine if_neg fun read => ?_
    rcases ignores.2 with ⟨-, other⟩ | ⟨sent, -⟩
    · exact other read.2.2
    · cases read.2.1.symm.trans sent

variable {dataLen : BitVec 16}

theorem TcpHeader.Fits.readsOf_lt {t : Tcp} {src : Ipv4Addr} {data : Nat → Byte} (fits : (ofMemory data).Fits dataLen) :
    ∀ k ∈ t.readsOf (arrival src data dataLen), k < dataLen.toNat := by
  intro k inside
  rw [readsOf] at inside
  split at inside
  next => cases inside
  next =>
    split at inside
    next =>
      obtain ⟨j, below, rfl⟩ := List.mem_map.mp inside
      have length : (dataLen - (ofMemory data).len).toNat = dataLen.toNat - (ofMemory data).len.toNat :=
        BitVec.toNat_sub_of_le fits.2
      have below : j < (dataLen - (ofMemory data).len).toNat := List.mem_range.mp below
      have here : (ofMemory data).len.toNat + j < dataLen.toNat := by omega
      exact here
    next => cases inside

theorem payloadLen_ne_zero {header : TcpHeader} (long : 20 ≤ dataLen.toNat) (bad : ¬header.Fits dataLen) :
    dataLen - header.len ≠ 0 := by
  intro zero
  have same : dataLen = header.len := by bv_omega
  exact bad ⟨same ▸ long, same ▸ Nat.le_refl _⟩

/-- The bounds hold for a segment just when it is too short for a header, its header fits, or it is ignored. -/
theorem data_offset_checked_iff (t : Tcp) (src : Ipv4Addr) (data : Nat → Byte) (dataLen : BitVec 16)
    (id : BitVec 16) (random : BitVec 32)
    (received : Received) (returned : tcpOnData t src data dataLen id random = .ok received) :
    received.Checked t data dataLen ↔
      dataLen.toNat < 20 ∨ (ofMemory data).Fits dataLen ∨ t.Ignores (arrival src data dataLen) := by
  by_cases short : dataLen.toNat < 20
  · rw [tcpOnData_short t src data id random short] at returned
    cases returned
    exact iff_of_true ⟨fun k inside => absurd inside List.not_mem_nil, fun _ _ => rfl⟩ (.inl short)
  have long : 20 ≤ dataLen.toNat := Nat.not_lt.mp short
  obtain ⟨t₁, flush, delivered, output, reads⟩ := tcpOnData_ensures t src data id random long received returned
  -- with a header that fits the payload ends with the data; otherwise its length is not 0, and all depends on its being ignored
  by_cases fits : (ofMemory data).Fits dataLen
  · refine iff_of_true ⟨?_, fun bad => absurd fits bad⟩ (.inr (.inl fits))
    rw [reads]
    exact fits.readsOf_lt
  have unchanged := delivered.unchanged_iff output (payloadLen_ne_zero long fits)
  rw [or_iff_right short, or_iff_right fits, ← unchanged]
  refine ⟨fun checked => checked.2 fits, fun same => ⟨?_, fun _ => same⟩⟩
  rw [reads, readsOf_of_ignores (unchanged.mp same)]
  exact fun k inside => absurd inside List.not_mem_nil

/-- A connection from port 1000 to port 80 of 10.0.2.2 that waits for the number 5. -/
def oneConnection (state : TcpState) : Tcp where
  nics := fun _ => ⟨0, 0, none⟩
  routes := fun _ => none
  ipId := 0
  conns := fun
    | 0 => { newConn 7 (ipv4 10 0 2 2) 1000 80 0 with state := state, ack := 5, seq := 1 }
    | _ => { newConn 0 0 0 0 0 with claimed := false }
  listeners := fun _ => ⟨0, 0, ⟨fun _ => 0, 0, 0⟩⟩
  port := 49152

def segmentFive (dataOffset : Byte) : Nat → Byte :=
  fun i => [0, 80, 3, 232, 0, 0, 0, 5, 0, 0, 0, 1, dataOffset, tcpAck, 32, 0, 0, 0, 0, 0].getD i 0

/-- The number that the connection waits for after the segment, and the first index of the payload that is read. -/
def afterSegment (dataOffset : Byte) (dataLen : BitVec 16) : Outcome (BitVec 32 × Option Nat) := do
  let received ← tcpOnData (oneConnection .established) (ipv4 10 0 2 2) (segmentFive dataOffset) dataLen 0 0
  pure ((received.tcp.conns 0).ack, received.reads.head?)

theorem received_of_afterSegment {dataOffset : Byte} {ack : BitVec 32} {first : Option Nat}
    (seen : afterSegment dataOffset dataLen = .ok (ack, first)) :
    ∃ received, tcpOnData (oneConnection .established) (ipv4 10 0 2 2) (segmentFive dataOffset) dataLen 0 0 = .ok received ∧
      (received.tcp.conns 0).ack = ack ∧ received.reads.head? = first := by
  obtain ⟨received, ret, same⟩ := Outcome.of_bind seen
  obtain ⟨number, reads⟩ := Outcome.ok_inj same
  exact ⟨received, ret, number, reads⟩

/-- With a data offset of 60 bytes, a segment of 20 bytes is read from its index 60 on, and 65496 bytes are acknowledged. -/
theorem long_offset_read_past : ∃ received,
    tcpOnData (oneConnection .established) (ipv4 10 0 2 2) (segmentFive 0xF0) 20 0 0 = .ok received ∧ 60 ∈ received.reads ∧
      (received.tcp.conns 0).ack = 5 + 65496 ∧ ¬received.Checked (oneConnection .established) (segmentFive 0xF0) 20 := by
  have seen : afterSegment 0xF0 20 = .ok (5 + 65496, some 60) := by decide +kernel
  obtain ⟨received, returned, number, first⟩ := received_of_afterSegment seen
  have inside : 60 ∈ received.reads := List.mem_of_head? first
  exact ⟨received, returned, inside, number, fun checked => absurd (checked.1 60 inside) (by decide)⟩

/-- With a data offset of 20 bytes the bounds hold, for two bytes of payload. -/
theorem plain_offset_checked : ∃ received,
    tcpOnData (oneConnection .established) (ipv4 10 0 2 2) (segmentFive 0x50) 22 0 0 = .ok received ∧ 20 ∈ received.reads ∧
      received.Checked (oneConnection .established) (segmentFive 0x50) 22 := by
  have seen : afterSegment 0x50 22 = .ok (7, some 20) := by decide +kernel
  obtain ⟨received, returned, -, first⟩ := received_of_afterSegment seen
  have checked := (data_offset_checked_iff _ _ _ _ 0 0 received returned).mpr (.inr (.inl ⟨by decide +kernel, by decide +kernel⟩))
  exact ⟨received, returned, List.mem_of_head? first, checked⟩

end Xos.Net
