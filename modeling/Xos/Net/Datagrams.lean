import Xos.Net.ByteOrder
import Xos.Net.Ethernet
import Xos.Net.IpSend
import Xos.Net.UdpSockets

/-!
# From a payload to a frame

`udp_send`, `ip_send` and `ethernet_send` each put a header in front and keep the length in 16 bits. A payload comes
through when the length of the frame does not wrap.
-/
namespace Xos.Net

open Outcome List

theorem htons_htons (x : BitVec 16) : htons (htons x) = x := by
  apply BitVec.eq_of_toNat_eq
  rw [htons_toNat, htons_toNat]
  omega

theorem ushort_of_bytes (x : BitVec 16) : x.extractLsb' 8 8 ++ x.extractLsb' 0 8 = x := by
  apply BitVec.eq_of_toNat_eq
  have written := bytes_toNat x
  rw [BitVec.toNat_append, Nat.shiftLeft_eq, Nat.mul_comm, ← Nat.two_pow_add_eq_or_of_lt (BitVec.isLt _)]
  omega

theorem ushortAt_of_append {front back : List Byte} {i : Nat} (x : BitVec 16) (length : front.length = i) :
    ushortAt (front ++ (ushortBytes x ++ back)) i = x := by
  subst length
  simp [ushortAt, ushortBytes, ushort_of_bytes]

theorem length_ipv4Header (header : Ipv4Header) : header.bytes.length = 20 := by
  simp [Ipv4Header.bytes, ushortBytes, uintBytes]

theorem length_udpHeader (header : UdpHeader) : header.bytes.length = 8 := by
  simp [UdpHeader.bytes, ushortBytes]

structure CarriesUdp (packet : List Byte) (srcPort dstPort : BitVec 16) (payload : List Byte) : Prop where
  short : 28 + payload.length < 2 ^ 16
  laidOut : ∃ header : Ipv4Header, header.protocol = protocolUdp ∧ header.totalLength = htons (BitVec.ofNat 16 (28 + payload.length)) ∧
    packet = header.bytes ++ ((UdpHeader.mk (htons srcPort) (htons dstPort) (htons (BitVec.ofNat 16 (8 + payload.length))) 0).bytes ++ payload)

namespace CarriesUdp

variable {packet payload : List Byte} {srcPort dstPort : BitVec 16}

section

variable (carries : CarriesUdp packet srcPort dstPort payload)
include carries

theorem length_packet : packet.length = 28 + payload.length := by
  obtain ⟨header, -, -, rfl⟩ := carries.laidOut
  rw [length_append, length_append, length_ipv4Header, length_udpHeader]
  omega

theorem total : (htons (ushortAt packet 2)).toNat = 28 + payload.length := by
  obtain ⟨header, -, total, rfl⟩ := carries.laidOut
  simp only [Ipv4Header.bytes, append_assoc]
  rw [ushortAt_of_append _ (by rfl), total, htons_htons, BitVec.toNat_ofNat, Nat.mod_eq_of_lt carries.short]

theorem protocol : packet.getD 9 0 = protocolUdp := by
  obtain ⟨header, protocol, -, rfl⟩ := carries.laidOut
  simp [Ipv4Header.bytes, ushortBytes, protocol]

theorem drop_header :
    packet.drop 20 = (UdpHeader.mk (htons srcPort) (htons dstPort) (htons (BitVec.ofNat 16 (8 + payload.length))) 0).bytes ++ payload := by
  obtain ⟨header, -, -, rfl⟩ := carries.laidOut
  rw [drop_append_of_le_length (by rw [length_ipv4Header]), drop_eq_nil_of_le (by rw [length_ipv4Header]), nil_append]

theorem destination : htons (ushortAt packet 22) = dstPort := by
  obtain ⟨header, -, -, rfl⟩ := carries.laidOut
  simp only [UdpHeader.bytes, append_assoc]
  rw [← append_assoc, ushortAt_of_append _ (by rw [length_append, length_ipv4Header]; rfl), htons_htons]

theorem drop_headers : packet.drop 28 = payload := by
  rw [show 28 = 20 + 8 from rfl, ← drop_drop, carries.drop_header, drop_append_of_le_length (by rw [length_udpHeader]),
    drop_eq_nil_of_le (by rw [length_udpHeader]), nil_append]

end

end CarriesUdp

def decodeUdp (frame : List Byte) : Option (List Byte) :=
  let packet := frame.drop 14
  let total := (htons (ushortAt packet 2)).toNat
  let datagram := (packet.take total).drop 20
  let length := (htons (ushortAt datagram 4)).toNat
  if htons (ushortAt frame 12) = ethertypeIpv4 ∧ packet.getD 9 0 = protocolUdp ∧ total ≤ packet.length ∧ 8 ≤ length ∧
      length ≤ datagram.length
  then some ((datagram.take length).drop 8)
  else none

theorem drop_ethernetFrame (dst src : MacAddr) (ethertype : BitVec 16) (payload : List Byte) :
    (ethernetFrame dst src ethertype payload).drop 14 = payload := by
  simp [ethernetFrame, ushortBytes]

theorem decodeUdp_frame {packet payload : List Byte} {srcPort dstPort : BitVec 16}
    (carries : CarriesUdp packet srcPort dstPort payload)
    (dst src : MacAddr) : decodeUdp (ethernetFrame dst src ethertypeIpv4 packet) = some payload := by
  have ethertype : htons (ushortAt (ethernetFrame dst src ethertypeIpv4 packet) 12) = ethertypeIpv4 := by
    rw [ethernetFrame, append_assoc, ushortAt_of_append _ (by simp), htons_htons]
  have whole : packet.take (28 + payload.length) = packet := take_of_length_le carries.length_packet.le
  have length : (htons (ushortAt (packet.drop 20) 4)).toNat = 8 + payload.length := by
    rw [carries.drop_header]
    simp only [UdpHeader.bytes, append_assoc]
    rw [← append_assoc, ushortAt_of_append _ (by rfl), htons_htons, BitVec.toNat_ofNat, Nat.mod_eq_of_lt]
    have short := carries.short
    omega
  simp only [decodeUdp, drop_ethernetFrame, carries.total, whole, length]
  have rest : (packet.drop 20).length = 8 + payload.length := by
    rw [length_drop, carries.length_packet]
    omega
  rw [if_pos ⟨ethertype, carries.protocol, carries.length_packet.ge, by omega, rest.ge⟩, take_of_length_le rest.le, carries.drop_header,
    drop_append_of_le_length (by rw [length_udpHeader]), drop_eq_nil_of_le (by rw [length_udpHeader]), nil_append]

section UdpSend

variable {net : Stack} {u : Udp} {id : BitVec 16} {payload : List Byte} {len : BitVec 16}

variable {net' : Stack}

theorem sendDatagram_sent {dst : Ipv4Addr} {srcPort dstPort : BitVec 16} {opts : IpSendOpts} {sent : Sent}
    (length : payload.length = len.toNat) (ret : sendDatagram net dst srcPort dstPort payload len opts = .ok (net', some sent)) :
    CarriesUdp sent.packet srcPort dstPort payload := by
  rw [sendDatagram] at ret
  split at ret
  next => cases ret
  next short =>
    have fits : ¬2 ^ 16 ≤ 8 + len.toNat := (wraps_iff 8 len).not.mp short
    have sum : (8 + len).toNat = 8 + len.toNat := by
      rw [BitVec.toNat_add]
      exact Nat.mod_eq_of_lt (by simpa using fits)
    obtain ⟨long, header, protocol, total, packet⟩ := ipSend_sent ret
    rw [sum] at long packet
    have datagram : BitVec.ofNat 16 (8 + payload.length) = 8 + len := by
      rw [length, ← sum, BitVec.ofNat_toNat, BitVec.setWidth_eq]
    have all : BitVec.ofNat 16 (28 + payload.length) = 20 + (8 + len) := by
      rw [← datagram, show 28 + payload.length = 20 + (8 + payload.length) by omega, BitVec.ofNat_add]
      rfl
    refine ⟨by omega, header, protocol, by rw [all, total], ?_⟩
    rw [packet, datagram, take_of_length_le length.le, take_of_length_le]
    rw [length_append, length_udpHeader, length]

theorem udpSend_sent {res : Int} {sent : Sent} (length : payload.length = len.toNat)
    (ret : udpSend net u id payload len = .ok (res, net', some sent)) :
    ∃ i, getSocket u id = some i ∧ CarriesUdp sent.packet (u i).localPort (u i).remotePort payload := by
  rw [udpSend] at ret
  cases found : getSocket u id with
  | none =>
    rw [found] at ret
    cases ret
  | some i =>
    rw [found] at ret
    obtain ⟨⟨after, out⟩, handed, same⟩ := of_bind ret
    cases same
    exact ⟨i, rfl, sendDatagram_sent length handed⟩

variable {nic : Nic}

theorem udpSend_routed {i : Nat} {j : Int} {route : Route} {driver : Driver} (found : getSocket u id = some i)
    (chosen : chooseNic net (u i).remoteAddr ⟨(u i).localAddr, (u i).nicId⟩ = .ok (some j, route)) (numbered : route.nicId ≠ 0)
    (card : net.nicAt j = .ok nic) (driven : nic.driver = some driver) (payload : List Byte) (fits : 28 + len.toNat < 2 ^ 16) :
    ∃ res net' sent, udpSend net u id payload len = .ok (res, net', some sent) ∧ sent.driver = driver := by
  have sum : (8 + len).toNat = 8 + len.toNat := by
    rw [BitVec.toNat_add]
    exact Nat.mod_eq_of_lt (by simp only [BitVec.reduceToNat]; omega)
  have short : ¬(8 + len).toNat < 8 + len.toNat := by omega
  obtain ⟨after, packet, sent, same, -⟩ := ipSend_routed chosen numbered card driven protocolUdp
    ((UdpHeader.mk (htons (u i).localPort) (htons (u i).remotePort) (htons (8 + len)) 0).bytes ++ payload.take len.toNat)
    (show 20 + (8 + len).toNat < 2 ^ 16 by omega)
  simp only [udpSend, found, sendDatagram, if_neg short, sent, ok_bind]
  exact ⟨_, _, _, rfl, same⟩

theorem ethernetDriverSend_known {eth : Ethernet} {hop : Ipv4Addr} {mac : MacAddr} {packet : List Byte} (block : Nat)
    (known : arpTableLookup eth hop = some mac) (driven : nic.driver = some .e1000) (short : packet.length < 2 ^ 16) :
    ethernetDriverSend eth nic packet (BitVec.ofNat 16 packet.length) hop block =
      if 14 + packet.length < 2 ^ 16 then .ok (eth, [ethernetFrame mac eth.mac ethertypeIpv4 packet])
      else .error (.outOfBounds (14 + BitVec.ofNat 16 packet.length).toNat) := by
  have length : (BitVec.ofNat 16 packet.length).toNat = packet.length := by
    rw [BitVec.toNat_ofNat, Nat.mod_eq_of_lt short]
  have wraps : _ ↔ 2 ^ 16 ≤ 14 + (BitVec.ofNat 16 packet.length).toNat := wraps_iff 14 (BitVec.ofNat 16 packet.length)
  simp only [ethernetDriverSend, known, ethernetSend, driven, ne_eq, not_true_eq_false, if_false]
  split
  next long =>
    rw [if_neg (by have := wraps.mp long; omega)]
    rfl
  next fits =>
    rw [if_pos (by have := wraps.not.mp fits; omega), length, take_of_length_le le_rfl]
    rfl

structure Resolves (net : Stack) (u : Udp) (eth : Ethernet) (id : BitVec 16) (nic : Nic) : Prop where
  route : ∃ i j route, getSocket u id = some i ∧ chooseNic net (u i).remoteAddr ⟨(u i).localAddr, (u i).nicId⟩ = .ok (some j, route) ∧
    route.nicId ≠ 0 ∧ net.nicAt j = .ok nic ∧
    (arpTableLookup eth (if route.gateway ≠ 0 then route.gateway else (u i).remoteAddr)).isSome
  driver : nic.driver = some .e1000

/-- Nothing is sent, or a frame with the three headers and the payload in it, that can be decoded. No write is outside
of the memory for it. -/
def ArrivesWhole (net : Stack) (u : Udp) (eth : Ethernet) (id : BitVec 16) (nic : Nic) (payload : List Byte) (len : BitVec 16)
    (block : Nat) : Prop :=
  (∃ result net', udpSend net u id payload len = .ok (result, net', none)) ∨
    ∃ result net' sent eth' frame, udpSend net u id payload len = .ok (result, net', some sent) ∧
      ethernetDriverSend eth nic sent.packet (BitVec.ofNat 16 sent.packet.length) sent.nextHop block = .ok (eth', [frame]) ∧
      frame.length = 14 + 20 + 8 + payload.length ∧ decodeUdp frame = some payload

section Resolves

variable {eth : Ethernet} {nic : Nic}

/-- With a route, `udp_send` drops nothing, and what it hands over goes to an address that is known. -/
theorem Resolves.handed (resolves : Resolves net u eth id nic) {res : Int} {out : Option Sent}
    (ret : udpSend net u id payload len = .ok (res, net', out)) :
    ∃ sent mac, out = some sent ∧ arpTableLookup eth sent.nextHop = some mac := by
  obtain ⟨⟨i, j, route, found, chosen, numbered, card, known⟩, driven⟩ := resolves
  simp only [udpSend, found, sendDatagram] at ret
  obtain ⟨⟨after, handed⟩, sent, same⟩ := of_bind ret
  cases same
  split at sent
  next => cases sent
  next =>
    obtain ⟨packet, rfl⟩ := Option.isSome_iff_exists.mp (ipSend_not_dropped chosen numbered card driven sent)
    obtain ⟨mac, known⟩ := Option.isSome_iff_exists.mp known
    obtain ⟨_, _, again, -, hop⟩ := ipSend_routed chosen numbered card driven _ _ (ipSend_sent sent).1
    cases again.symm.trans sent
    exact ⟨packet, mac, rfl, hop ▸ known⟩

end Resolves

theorem ArrivesWhole.fits {eth : Ethernet} {block : Nat} (resolves : Resolves net u eth id nic)
    (length : payload.length = len.toNat) (whole : ArrivesWhole net u eth id nic payload len block) : len.toNat ≤ 65493 := by
  obtain ⟨res, net', ret⟩ | ⟨res, net', sent, eth', frame, ret, driven, -, -⟩ := whole
  · obtain ⟨_, _, dropped, -⟩ := resolves.handed ret
    cases dropped
  · obtain ⟨_, mac, same, known⟩ := resolves.handed ret
    cases same
    obtain ⟨i, -, carries⟩ := udpSend_sent length ret
    have packet := carries.length_packet
    have short := carries.short
    rw [ethernetDriverSend_known block known resolves.driver (by omega)] at driven
    split at driven
    next fits => omega
    next => cases driven

/-- With a route, a payload arrives whole just when the length of the frame does not wrap. -/
theorem arrives_whole_iff {eth : Ethernet} {nic : Nic} (resolves : Resolves net u eth id nic) (length : payload.length = len.toNat)
    (block : Nat) : ArrivesWhole net u eth id nic payload len block ↔ len.toNat ≤ 65493 := by
  refine ⟨ArrivesWhole.fits resolves length, ?_⟩
  intro fits
  obtain ⟨_, _, _, found, chosen, numbered, card, -⟩ := resolves.route
  obtain ⟨result, net', sent, returned, -⟩ := udpSend_routed found chosen numbered card resolves.driver payload (show 28 + len.toNat < 2 ^ 16 by omega)
  obtain ⟨_, mac, same, known⟩ := resolves.handed returned
  cases same
  obtain ⟨i, -, carries⟩ := udpSend_sent length returned
  have packet := carries.length_packet
  refine .inr ⟨result, net', sent, eth, _, returned, ?_, ?_, decodeUdp_frame carries mac eth.mac⟩
  · rw [ethernetDriverSend_known block known resolves.driver (by omega), if_pos (by omega)]
  · simp only [ethernetFrame, length_append, length_ofFn, packet, ushortBytes, length_cons, length_nil]
    omega

end UdpSend

def connected80 : Udp := (udpConnect (udpCreateSocket udpInit 1).2 1 (ipv4 10 0 2 2) 80).2

def knows1022 : Ethernet := ⟨fun _ => ⟨ipv4 10 0 2 2, fun _ => 2⟩, fun _ => ⟨0, none, 0, 0⟩, fun _ => none, fun _ => 4⟩

theorem connected80_resolves : Resolves (oneCard (ipv4 10 0 0 5)) connected80 knows1022 1 ⟨1, ipv4 10 0 0 5, some .e1000⟩ where
  route := ⟨0, 1, ⟨ipv4 10 0 0 0, ipv4 255 255 0 0, 0, 1, 0⟩, rfl, by decide +kernel, by decide, rfl, rfl⟩
  driver := rfl

theorem long_not_whole (len : BitVec 16) (long : 65493 < len.toNat) :
    ¬ArrivesWhole (oneCard (ipv4 10 0 0 5)) connected80 knows1022 1 ⟨1, ipv4 10 0 0 5, some .e1000⟩ (List.replicate len.toNat 0) len 0 := by
  intro whole
  have fits := whole.fits connected80_resolves length_replicate
  omega

/-- Each of the three lengths can wrap, in `ethernet_send`, `ip_send` and `udp_send`. -/
theorem lengths_wrap :
    ¬ArrivesWhole (oneCard (ipv4 10 0 0 5)) connected80 knows1022 1 ⟨1, ipv4 10 0 0 5, some .e1000⟩ (List.replicate 65494 0) 65494 0 ∧
      ¬ArrivesWhole (oneCard (ipv4 10 0 0 5)) connected80 knows1022 1 ⟨1, ipv4 10 0 0 5, some .e1000⟩ (List.replicate 65508 0) 65508 0 ∧
      ¬ArrivesWhole (oneCard (ipv4 10 0 0 5)) connected80 knows1022 1 ⟨1, ipv4 10 0 0 5, some .e1000⟩ (List.replicate 65528 0) 65528 0 :=
  ⟨long_not_whole 65494 (by decide), long_not_whole 65508 (by decide), long_not_whole 65528 (by decide)⟩

theorem two_bytes_arrive : ArrivesWhole (oneCard (ipv4 10 0 0 5)) connected80 knows1022 1 ⟨1, ipv4 10 0 0 5, some .e1000⟩ [104, 105] 2 0 :=
  (arrives_whole_iff connected80_resolves rfl 0).mpr (by decide)

end Xos.Net
