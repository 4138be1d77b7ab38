import Xos.Lib.OnesComplement
import Xos.Net.Model

/-!
# Which segments a receiver accepts

The sender took its own address for the pseudo-header from the connection, and `ip_send` took it from the card. A
receiver accepts a sum of all ones.
-/
namespace Xos.Net

open Lib Word Outcome List OnesComplement

/-- The words of some bytes, the first byte of each the high one, with a zero after a last byte. -/
def words : List Byte → List Nat
  | high :: low :: rest => (256 * high.toNat + low.toNat) :: words rest
  | [last] => [256 * last.toNat]
  | [] => []

def pseudoHeader (packet : List Byte) : List Byte :=
  (packet.drop 12).take 8 ++ 0 :: (packet.drop 9).take 1 ++
    [BitVec.ofNat 8 ((packet.length - 20) / 256), BitVec.ofNat 8 (packet.length - 20)]

/-- The test of the checksum by the receiver of an IPv4 packet without options. -/
def Accepted (packet : List Byte) : Prop :=
  sum (2 ^ 16) (words (pseudoHeader packet ++ packet.drop 20)) = 0xFFFF

instance (packet : List Byte) : Decidable (Accepted packet) := inferInstanceAs (Decidable (_ = _))

theorem words_lt {bytes : List Byte} : ∀ word ∈ words bytes, word < 2 ^ 16 := by
  fun_induction words bytes with
  | case1 high low rest ih =>
    have := low.isLt
    intro word inside
    rcases mem_cons.mp inside with rfl | later
    · omega
    · exact ih word later
  | case2 last =>
    intro word inside
    rw [mem_singleton.mp inside]
    omega
  | case3 => simp

theorem words_sum_le (bytes : List Byte) : (words bytes).sum ≤ 65535 * ((bytes.length + 1) / 2) := by
  fun_induction words bytes with
  | case1 high low rest ih =>
    have := high.isLt
    have := low.isLt
    simp only [sum_cons, length_cons]
    omega
  | case2 last =>
    simp only [sum_cons, sum_nil, length_cons, length_nil]
    omega
  | case3 => simp

theorem word_eq (high low : Byte) : word high low = 256 * high.toNat + low.toNat := by
  rw [word, ← Nat.shiftLeft_add_eq_or_of_lt low.isLt, Nat.shiftLeft_eq, Nat.mul_comm]

theorem addWords_eq {bytes : List Byte} {sum : Nat} (bound : sum + (words bytes).sum < 2 ^ 32) :
    addWords bytes sum = sum + (words bytes).sum := by
  fun_induction addWords bytes sum with
  | case1 sum high low rest ih =>
    simp only [words, sum_cons] at bound ⊢
    rw [word_eq, u32_of_lt (by omega)] at ih
    rw [word_eq, u32_of_lt (by omega), ih (by omega)]
    omega
  | case2 sum last =>
    simp only [words, sum_cons, sum_nil, Nat.shiftLeft_eq] at bound ⊢
    rw [u32_of_lt (by omega)]
    omega
  | case3 sum => rfl

theorem foldCarries_eq {fuel sum : Nat} (enough : sum < fuel) : foldCarries fuel sum = .ok (fold (2 ^ 16) sum) := by
  induction fuel generalizing sum with
  | zero => omega
  | succ fuel ih =>
    rw [foldCarries, Nat.shiftRight_eq_div_pow, show 0xFFFF = 2 ^ 16 - 1 from rfl, Nat.and_two_pow_sub_one_eq_mod]
    split
    next carry => rw [ih (by omega), fold_carries (by decide)]
    next small => rw [fold_of_lt (by omega), pure_eq_ok]

def addrSum (addr : Ipv4Addr) : Nat := word (part addr 0) (part addr 1) + word (part addr 2) (part addr 3)

theorem addrSum_le (addr : Ipv4Addr) : addrSum addr ≤ 2 * 65535 := by
  have := (part addr 0).isLt
  have := (part addr 1).isLt
  have := (part addr 2).isLt
  simp only [addrSum, word_eq]
  omega

theorem tcpChecksum_eq (conn : TcpActiveSocket) {segment : List Byte} {len : BitVec 16} (whole : segment.length = len.toNat) :
    tcpChecksum conn segment len = .ok (htons (~~~BitVec.ofNat 16 (fold (2 ^ 16)
      (addrSum conn.localIp + addrSum conn.remoteIp + 6 + len.toNat + (words segment).sum)))) := by
  have source := addrSum_le conn.localIp
  have destination := addrSum_le conn.remoteIp
  have content := words_sum_le segment
  simp only [addrSum] at *
  rw [tcpChecksum, ← whole, take_length, segmentChecksum, pseudoSum]
  simp (disch := omega) only [show protocolTcp.toNat = 6 from rfl, u32_of_lt]
  rw [addWords_eq (by omega), foldCarries_eq (by omega)]
  simp only [ok_bind, pure_eq_ok, Except.ok.injEq]
  congr 4
  omega

theorem htons_bytes (x : BitVec 16) : ushortBytes (htons x) = [x.extractLsb' 8 8, x.extractLsb' 0 8] := by
  have low : (htons x).extractLsb' 0 8 = x.extractLsb' 8 8 := by
    ext i inside
    simp [htons, inside]
  have high : (htons x).extractLsb' 8 8 = x.extractLsb' 0 8 := by
    ext i inside
    have past : x.getLsbD (8 + (8 + i)) = false := x.getLsbD_of_ge _ (by omega)
    have within : 8 + i < 16 := by omega
    have inner : i < 16 := by omega
    simp [htons, past, within, BitVec.getLsbD_eq_getElem inner]
  rw [ushortBytes, low, high]

theorem bytes_toNat (x : BitVec 16) : 256 * (x.extractLsb' 8 8).toNat + (x.extractLsb' 0 8).toNat = x.toNat := by
  simp only [BitVec.extractLsb'_toNat, Nat.shiftRight_eq_div_pow]
  omega

theorem TcpHeader.length_bytes (header : TcpHeader) : header.bytes.length = 20 := rfl

theorem length_checksum (header : TcpHeader) (payload : List Byte) (checksum : BitVec 16) :
    ({ header with checksum := checksum }.bytes ++ payload).length = (header.bytes ++ payload).length := by
  rw [length_append, length_append, TcpHeader.length_bytes, TcpHeader.length_bytes]

variable {header : TcpHeader} {net : Stack}

theorem words_checksum (blank : header.checksum = 0) (payload : List Byte) (x : BitVec 16) :
    (words ({ header with checksum := htons x }.bytes ++ payload)).sum = (words (header.bytes ++ payload)).sum + x.toNat := by
  have written := bytes_toNat x
  simp only [TcpHeader.bytes, htons_bytes, blank]
  simp only [ushortBytes, uintBytes, words, cons_append, nil_append, sum_cons, BitVec.ofNat_eq_ofNat,
    BitVec.extractLsb'_zero, BitVec.toNat_ofNat, Nat.zero_mod]
  omega

/-- What a receiver adds up, for a packet whose segment fits in a `ushort`. -/
theorem words_pseudoHeader {header : Ipv4Header} (tcp : header.protocol = protocolTcp)
    {segment : List Byte} (short : segment.length < 2 ^ 16) :
    (words (pseudoHeader (header.bytes ++ segment) ++ (header.bytes ++ segment).drop 20)).sum =
      addrSum header.srcAddr + addrSum header.dstAddr + 6 + segment.length + (words segment).sum := by
  simp only [pseudoHeader, Ipv4Header.bytes, ushortBytes, uintBytes, cons_append, nil_append, drop_succ_cons,
    drop_zero, take_succ_cons, take_zero, length_cons]
  simp only [words, sum_cons, addrSum, word_eq, tcp, protocolTcp, BitVec.ofNat_eq_ofNat, BitVec.toNat_ofNat]
  omega

/-- The segment with its checksum is accepted out of a packet to the same destination just when the sender
and the packet have source addresses of the same sum. -/
theorem accepted_iff {ip : Ipv4Header} {conn : TcpActiveSocket} {payload : List Byte} {len checksum : BitVec 16}
    (tcp : ip.protocol = protocolTcp) (destination : ip.dstAddr = conn.remoteIp) (blank : header.checksum = 0)
    (whole : (header.bytes ++ payload).length = len.toNat)
      (computed : tcpChecksum conn (header.bytes ++ payload) len = .ok checksum) :
    Accepted (ip.bytes ++ ({ header with checksum := checksum }.bytes ++ payload)) ↔
      addrSum ip.srcAddr ≡ addrSum conn.localIp [MOD 65535] := by
  have same_length := (length_checksum header payload checksum).trans whole
  rw [tcpChecksum_eq conn whole] at computed
  obtain rfl := Except.ok.inj computed
  rw [Accepted, sum_eq_fold (by decide) _ words_lt, words_pseudoHeader tcp (by omega), same_length,
    words_checksum blank, destination]
  -- both sums have all but the source address in common, and the receiver's has the complement on top
  generalize common : addrSum conn.remoteIp + 6 + len.toNat + (words (header.bytes ++ payload)).sum = rest
  have sender : addrSum conn.localIp + addrSum conn.remoteIp + 6 + len.toNat + (words (header.bytes ++ payload)).sum =
      addrSum conn.localIp + rest := by omega
  have bound := fold_lt (b := 2 ^ 16) (by decide) (addrSum conn.localIp + rest)
  have complement : (~~~BitVec.ofNat 16 (fold (2 ^ 16) (addrSum conn.localIp + rest))).toNat =
      2 ^ 16 - 1 - fold (2 ^ 16) (addrSum conn.localIp + rest) := by
    rw [BitVec.toNat_not, BitVec.toNat_ofNat, Nat.mod_eq_of_lt bound]
  have balance := complement_iff (b := 2 ^ 16) (m := addrSum ip.srcAddr + rest) (n := addrSum conn.localIp + rest)
    (by decide) (by omega)
  have cancel : addrSum ip.srcAddr + rest ≡ addrSum conn.localIp + rest [MOD 2 ^ 16 - 1] ↔
      addrSum ip.srcAddr ≡ addrSum conn.localIp [MOD 2 ^ 16 - 1] :=
    ⟨fun same => same.add_right_cancel' rest, fun same => same.add_right rest⟩
  have receiver : addrSum ip.srcAddr + addrSum conn.remoteIp + 6 + len.toNat + ((words (header.bytes ++ payload)).sum +
        (2 ^ 16 - 1 - fold (2 ^ 16) (addrSum conn.localIp + rest))) =
      addrSum ip.srcAddr + rest + (2 ^ 16 - 1 - fold (2 ^ 16) (addrSum conn.localIp + rest)) := by omega
  rw [sender, complement, receiver]
  exact balance.trans cancel

def Stack.sourceAddress (net : Stack) (dst : Ipv4Addr) : Outcome Ipv4Addr := do
  let route ← findBestRoute net dst
  let nic ← net.nicAt route.nicId
  pure nic.addr

/-- The source address for a connection's packets and the one in the connection have the same sum. -/
def Stack.SourceAgrees (net : Stack) (i : Nat) : Prop :=
  ∃ src, net.sourceAddress (net.conns i).remoteIp = .ok src ∧ addrSum src ≡ addrSum (net.conns i).localIp [MOD 65535]

theorem Stack.sourceAddress_congr {net' : Stack} (nics : net'.nics = net.nics) (routes : net'.routes = net.routes) (dst : Ipv4Addr) :
    net'.sourceAddress dst = net.sourceAddress dst := by
  cases net
  cases net'
  subst nics routes
  rfl

theorem Stack.setConn_sourceAddress (net : Stack) (i : Nat) (conn : TcpActiveSocket) (dst : Ipv4Addr) :
    (net.setConn i conn).sourceAddress dst = net.sourceAddress dst :=
  sourceAddress_congr rfl rfl dst

variable {i : Nat}

theorem Stack.sourceAgrees_iff (net : Stack) {src : Ipv4Addr} (source : net.sourceAddress (net.conns i).remoteIp = .ok src) :
    net.SourceAgrees i ↔ addrSum src ≡ addrSum (net.conns i).localIp [MOD 65535] := by
  simp [SourceAgrees, source]

/-- What `ip_send` leaves as it is, and what it emits when it is given no options. -/
theorem ipSend_ensures (net : Stack) (dst : Ipv4Addr) (protocol : Byte) (payload : List Byte) (len : BitVec 16) :
    (ipSend net dst protocol payload len ⟨0, 0⟩).Ensures fun res =>
      (∃ ipId, res.1 = { net with ipId := ipId }) ∧
        ∀ sent, res.2 = some sent → ∃ header : Ipv4Header, header.protocol = protocol ∧ header.dstAddr = dst ∧
          net.sourceAddress dst = .ok header.srcAddr ∧ sent.packet = header.bytes ++ payload.take len.toNat := by
  rw [ipSend]
  apply Outcome.Ensures.read
  -- without options, the branch that takes the number of a card for its index
  rintro ⟨index, route⟩ chosen
  obtain ⟨best, found, pair⟩ := of_bind chosen
  obtain ⟨rfl, rfl⟩ := ok_inj pair
  apply Outcome.Ensures.ite
  · intro _
    exact .pure ⟨⟨net.ipId, rfl⟩, fun sent emitted => absurd emitted (by simp)⟩
  · intro _
    apply Outcome.Ensures.read
    intro nic card
    apply Outcome.Ensures.read
    intro checksum _
    apply Outcome.Ensures.ite
    · intro _
      exact .stop _
    · intro _
      dsimp only
      split
      next => exact .stop _
      next driver _ =>
        apply Outcome.Ensures.pure
        refine ⟨⟨_, rfl⟩, fun sent emitted => ?_⟩
        obtain rfl := Option.some.inj emitted
        refine ⟨_, rfl, rfl, ?_, rfl⟩
        rw [Stack.sourceAddress, found, ok_bind, card]
        rfl

theorem sendSegment_ensures (net : Stack) (conn : TcpActiveSocket) (blank : header.checksum = 0)
    (payload : List Byte) (len : BitVec 16) :
    (sendSegment net conn header payload len).Ensures fun res =>
      (∃ ipId, res.1 = { net with ipId := ipId }) ∧
        ∀ sent, res.2 = some sent → (header.bytes ++ payload).length = len.toNat →
          ∃ src, net.sourceAddress conn.remoteIp = .ok src ∧
            (Accepted sent.packet ↔ addrSum src ≡ addrSum conn.localIp [MOD 65535]) := by
  apply Outcome.Ensures.read
  intro checksum computed
  refine (ipSend_ensures net conn.remoteIp protocolTcp _ len).mono ?_
  rintro res ⟨kept, emits⟩
  refine ⟨kept, fun sent emitted whole => ?_⟩
  obtain ⟨ip, tcp, destination, source, packet⟩ := emits sent emitted
  have same_length := (length_checksum header payload checksum).trans whole
  rw [← same_length, take_length] at packet
  rw [packet]
  exact ⟨ip.srcAddr, source, accepted_iff tcp destination blank whole computed⟩

theorem createHeader_blank (conn : TcpActiveSocket) (flags : Byte) : (createHeader conn flags).checksum = 0 := rfl

theorem sendHeader_ensures (net : Stack) (i : Nat) (flags : Byte) :
    (sendHeader net i flags).Ensures fun res => ∀ sent, res.2 = some sent → (Accepted sent.packet ↔ net.SourceAgrees i) := by
  rw [sendHeader]
  -- a sequence number taken for SYN or FIN is no part of what the two sums depend on
  generalize counted : (if flags &&& (tcpSyn ||| tcpFin) ≠ 0 then _ else _ : TcpActiveSocket) = conn
  have addresses : conn.localIp = (net.conns i).localIp ∧ conn.remoteIp = (net.conns i).remoteIp := by
    rw [← counted]
    split <;> simp
  refine (sendSegment_ensures _ conn (createHeader_blank ..) [] 20).mono ?_
  rintro res ⟨-, emits⟩ sent emitted
  obtain ⟨src, source, verdict⟩ := emits sent emitted rfl
  rw [net.setConn_sourceAddress, addresses.2] at source
  rw [addresses.1] at verdict
  exact verdict.trans (net.sourceAgrees_iff source).symm

structure Sending (net : Stack) (i : Nat) (state : Stack × List (Nat × Sent)) : Prop where
  nics : state.1.nics = net.nics
  routes : state.1.routes = net.routes
  ahead : ∀ j, i ≤ j → state.1.conns j = net.conns j
  verdict : ∀ j sent, (j, sent) ∈ state.2 → (net.conns j).payloadLen ≤ 65495 → (Accepted sent.packet ↔ net.SourceAgrees j)

theorem Sending.sendBuffered {state : Stack × List (Nat × Sent)} (sending : Sending net i state) :
    (sendBuffered i state).Ensures (Sending net (i + 1)) := by
  have here := sending.ahead i (Nat.le_refl i)
  rw [Net.sendBuffered, here]
  apply Outcome.Ensures.ite
  · intro _
    exact .pure { sending with ahead := fun j later => sending.ahead j (by omega) }
  intro _
  apply Outcome.Ensures.ite
  · intro _
    exact .stop _
  intro _
  refine .bind (sendSegment_ensures _ _ (createHeader_blank ..) _ _) ?_
  rintro ⟨net', sent⟩ ⟨⟨ipId, kept⟩, emits⟩
  obtain rfl := kept
  apply Outcome.Ensures.pure
  refine ⟨sending.nics, sending.routes, fun j later => ?_, fun j other inside small => ?_⟩
  · have distinct : j ≠ i := by omega
    simpa [distinct] using sending.ahead j (by omega)
  · rcases mem_append.mp inside with before | now
    · exact sending.verdict j other before small
    · obtain ⟨emission, emitted, pair⟩ := mem_map.mp now
      obtain ⟨rfl, rfl⟩ := Prod.mk.inj pair
      -- up to 65495 bytes the length is not cut to 16 bits
      have whole : ((createHeader (net.conns i) tcpAck).bytes ++ (net.conns i).payload).length =
          (BitVec.ofNat 16 ((net.conns i).payloadLen + 20)).toNat := by
        rw [length_append, TcpHeader.length_bytes, TcpActiveSocket.payload, length_map, length_range,
          BitVec.toNat_ofNat, Nat.mod_eq_of_lt (by omega), Nat.add_comm]
      obtain ⟨src, source, verdict⟩ := emits emission (Option.mem_toList.mp emitted) whole
      rw [Stack.setConn_sourceAddress, Stack.sourceAddress_congr sending.nics sending.routes] at source
      exact verdict.trans (net.sourceAgrees_iff source).symm

/-- A segment is accepted just when the card that its packet leaves by has an address of the same sum as
the one in the connection. -/
theorem segment_accepted_iff (net : Stack) :
    (∀ i flags net' sent, sendHeader net i flags = .ok (net', some sent) → (Accepted sent.packet ↔ net.SourceAgrees i)) ∧
      ∀ net' emitted, tcpSendBufferedData net = .ok (net', emitted) → ∀ i sent, (i, sent) ∈ emitted →
        (net.conns i).payloadLen ≤ 65495 → (Accepted sent.packet ↔ net.SourceAgrees i) := by
  constructor
  · intro i flags net' sent returned
    exact sendHeader_ensures net i flags _ returned sent rfl
  · intro net' emitted returned
    have start : Sending net 0 (net, []) := ⟨rfl, rfl, fun _ _ => rfl, fun _ _ inside => absurd inside (by simp)⟩
    have finish := Outcome.Ensures.forRange_upto (Sending net) rfl start (fun _ _ => Sending.sendBuffered) _ returned
    exact finish.verdict

/-- The loopback card and one at an address in 10.0.0.0/16, with the routes that registering and configuring
them makes, and a connection to 10.0.2.2 that has two bytes to send. Its local address is the one that
`create_active` is given by all its callers. -/
def oneCard (addr : Ipv4Addr) : Stack where
  nics := fun
    | 0 => ⟨777, ipv4 127 0 0 1, some .loopback⟩
    | 1 => ⟨1, addr, some .e1000⟩
    | _ => ⟨0, 0, none⟩
  routes := fun
    | 0 => some ⟨ipv4 255 255 255 255, ipv4 255 255 255 255, 0, 777, 100⟩
    | 1 => some ⟨ipv4 127 0 0 0, ipv4 255 0 0 0, 0, 777, 10⟩
    | 2 => some ⟨ipv4 255 255 255 255, ipv4 255 255 255 255, 0, 1, 100⟩
    | 3 => some ⟨ipv4 10 0 0 0, ipv4 255 255 0 0, 0, 1, 0⟩
    | _ => none
  ipId := 0
  conns := fun
    | 0 => ⟨.established, 0, ipv4 10 0 2 2, 49152, 80, 1000, 5000, fun _ => 104, 2, 0⟩
    | _ => ⟨.closed, 0, 0, 0, 0, 0, 0, fun _ => 0, 0, 0⟩

/-- What a receiver makes of the segment that `send_header` sends. -/
def headerVerdict (net : Stack) (i : Nat) (flags : Byte) : Outcome (Option Bool) := do
  let result ← sendHeader net i flags
  pure (result.2.map fun sent => decide (Accepted sent.packet))

/-- What receivers make of the segments that `tcp_send_buffered_data` sends. -/
def dataVerdicts (net : Stack) : Outcome (List (Nat × Bool)) := do
  let result ← tcpSendBufferedData net
  pure (result.2.map fun emission => (emission.1, decide (Accepted emission.2.packet)))

theorem headerVerdict_sent {flags : Byte} {verdict : Bool} (seen : headerVerdict net i flags = .ok (some verdict)) :
    ∃ net' sent, sendHeader net i flags = .ok (net', some sent) ∧ decide (Accepted sent.packet) = verdict := by
  obtain ⟨⟨net', emitted⟩, ret, same⟩ := of_bind seen
  cases emitted with
  | none => simp at same
  | some sent => exact ⟨net', sent, ret, by simpa using same⟩

theorem dataVerdicts_sent {verdict : Bool} (seen : dataVerdicts net = .ok [(i, verdict)]) :
    ∃ net' sent, tcpSendBufferedData net = .ok (net', [(i, sent)]) ∧ decide (Accepted sent.packet) = verdict := by
  obtain ⟨⟨net', emitted⟩, ret, same⟩ := of_bind seen
  obtain ⟨⟨j, sent⟩, rfl, pair⟩ := map_eq_singleton_iff.mp (Except.ok.inj same)
  obtain ⟨rfl, accepted⟩ := Prod.mk.inj pair
  exact ⟨net', sent, ret, accepted⟩

/-- With the card at 10.0.2.15 neither an acknowledgement nor the two bytes are accepted. -/
theorem segments_rejected :
    (∃ net' sent, sendHeader (oneCard (ipv4 10 0 2 15)) 0 tcpAck = .ok (net', some sent) ∧ ¬Accepted sent.packet) ∧
      ∃ net' sent, tcpSendBufferedData (oneCard (ipv4 10 0 2 15)) = .ok (net', [(0, sent)]) ∧ ¬Accepted sent.packet := by
  have header : headerVerdict (oneCard (ipv4 10 0 2 15)) 0 tcpAck = .ok (some false) := by decide +kernel
  have data : dataVerdicts (oneCard (ipv4 10 0 2 15)) = .ok [(0, false)] := by decide +kernel
  constructor
  · obtain ⟨net', sent, returned, verdict⟩ := headerVerdict_sent header
    exact ⟨net', sent, returned, of_decide_eq_false verdict⟩
  · obtain ⟨net', sent, returned, verdict⟩ := dataVerdicts_sent data
    exact ⟨net', sent, returned, of_decide_eq_false verdict⟩

/-- With the card at 10.0.245.255, the words of which come to all ones, both are. -/
theorem segments_accepted_at_all_ones :
    (∃ net' sent, sendHeader (oneCard (ipv4 10 0 245 255)) 0 tcpAck = .ok (net', some sent) ∧ Accepted sent.packet) ∧
      ∃ net' sent, tcpSendBufferedData (oneCard (ipv4 10 0 245 255)) = .ok (net', [(0, sent)]) ∧ Accepted sent.packet := by
  have header : headerVerdict (oneCard (ipv4 10 0 245 255)) 0 tcpAck = .ok (some true) := by decide +kernel
  have data : dataVerdicts (oneCard (ipv4 10 0 245 255)) = .ok [(0, true)] := by decide +kernel
  have agrees : (oneCard (ipv4 10 0 245 255)).SourceAgrees 0 := ⟨ipv4 10 0 245 255, by decide +kernel, by decide +kernel⟩
  constructor
  · obtain ⟨net', sent, returned, -⟩ := headerVerdict_sent header
    exact ⟨net', sent, returned, ((segment_accepted_iff _).1 0 tcpAck net' sent returned).mpr agrees⟩
  · obtain ⟨net', sent, returned, -⟩ := dataVerdicts_sent data
    have small : ((oneCard (ipv4 10 0 245 255)).conns 0).payloadLen ≤ 65495 := by decide
    exact ⟨net', sent, returned, ((segment_accepted_iff _).2 net' _ returned 0 sent (by simp) small).mpr agrees⟩

end Xos.Net
