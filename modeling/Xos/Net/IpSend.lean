import Xos.Net.Checksum

/-!
# What `ip_send` needs and what it hands over

With a card and a route chosen, `ip_send` hands the packet over to the driver of the card when the length
of the packet does not wrap.
-/
namespace Xos.Net

open Outcome

theorem addUshorts_lt {bytes : List Byte} {sum : Nat} (bound : sum < 2 ^ 32) : addUshorts bytes sum < 2 ^ 32 := by
  fun_induction addUshorts bytes sum with
  | case1 sum low high rest ih => exact ih (Word.u32_lt _)
  | case2 sum last => exact Word.u32_lt _
  | case3 sum => exact bound

theorem ipChecksum_returns (data : List Byte) : ∃ checksum, ipChecksum data = .ok checksum := by
  rw [ipChecksum, foldCarries_eq (addUshorts_lt (by decide))]
  exact ⟨_, rfl⟩

theorem wraps_iff (header len : BitVec 16) : (header + len).toNat < header.toNat + len.toNat ↔
    2 ^ 16 ≤ header.toNat + len.toNat := by
  rw [BitVec.toNat_add]
  omega

variable {net : Stack} {dst : Ipv4Addr} {protocol : Byte} {payload : List Byte} {len : BitVec 16} {opts : IpSendOpts}

theorem ipSend_sent {net' : Stack} {sent : Sent} (ret : ipSend net dst protocol payload len opts = .ok (net', some sent)) :
    20 + len.toNat < 2 ^ 16 ∧ ∃ header : Ipv4Header, header.protocol = protocol ∧ header.totalLength = htons (20 + len) ∧
      sent.packet = header.bytes ++ payload.take len.toNat := by
  rw [ipSend] at ret
  -- each way out of `ip_send` but the last one sends nothing
  obtain ⟨⟨index, route⟩, -, ret⟩ := of_bind ret
  cases index with
  | none => cases ret
  | some i =>
    dsimp only at ret
    split at ret
    next => cases ret
    next =>
      obtain ⟨nic, checksum, -, -, ret⟩ := of_bind₂ ret
      split at ret
      next => cases ret
      next short =>
        have fits : ¬2 ^ 16 ≤ 20 + len.toNat := (wraps_iff 20 len).not.mp short
        cases driver : nic.driver with
        | none =>
          rw [driver] at ret
          cases ret
        | some driver' =>
          rw [driver] at ret
          cases ret
          exact ⟨by omega, _, rfl, rfl, rfl⟩

theorem ipSend_not_dropped {i : Int} {route : Route} {nic : Nic} {driver : Driver} {net' : Stack} {out : Option Sent}
    (chosen : chooseNic net dst opts = .ok (some i, route)) (numbered : route.nicId ≠ 0) (card : net.nicAt i = .ok nic)
    (driven : nic.driver = some driver) (ret : ipSend net dst protocol payload len opts = .ok (net', out)) : out.isSome := by
  simp only [ipSend, chosen, ok_bind, if_neg numbered, card, driven] at ret
  obtain ⟨checksum, -, ret⟩ := of_bind ret
  split at ret
  next => cases ret
  next =>
    cases ret
    rfl

theorem ipSend_routed {i : Int} {route : Route} {nic : Nic} {driver : Driver} (chosen : chooseNic net dst opts = .ok (some i, route))
    (numbered : route.nicId ≠ 0) (card : net.nicAt i = .ok nic) (driven : nic.driver = some driver) (protocol : Byte)
    (payload : List Byte) (fits : 20 + len.toNat < 2 ^ 16) :
    ∃ net' sent, ipSend net dst protocol payload len opts = .ok (net', some sent) ∧ sent.driver = driver ∧
      sent.nextHop = if route.gateway ≠ 0 then route.gateway else dst := by
  obtain ⟨checksum, summed⟩ := ipChecksum_returns (ipv4Header net nic.addr dst protocol len).bytes
  have short : ¬(20 + len).toNat < 20 + len.toNat := by
    have sum : _ ↔ 2 ^ 16 ≤ 20 + len.toNat := wraps_iff 20 len
    exact sum.not.mpr (by omega)
  simp only [ipSend, chosen, ok_bind, if_neg numbered, card, summed, if_neg short, driven]
  exact ⟨_, _, rfl, rfl, rfl⟩

end Xos.Net
