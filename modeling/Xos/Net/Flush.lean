import Xos.Net.IpSend
import Xos.Net.SendStream

/-!
# When buffered data is sent (`tcp.c`)

The loop of `tcp_send_buffered_data` counts in a `ushort`, and `ip_send` takes a length of 16 bits. More than that can
wait in a connection.
-/
namespace Xos.Net

open Word Outcome

def Ends {α : Type} (x : Outcome α) : Prop := Meets x (fun _ => True) (· ≠ .diverges)

namespace Ends

variable {α β : Type} {x y : Outcome α} {f : α → Outcome β}

theorem ok (a : α) : Ends (.ok a : Outcome α) := trivial

theorem bind (first : Ends x) (rest : ∀ a, Ends (f a)) : Ends (x >>= f) := Meets.bind first fun a _ => rest a

theorem ite {c : Prop} [Decidable c] (yes : Ends x) (no : ¬c → Ends y) : Ends (if c then x else y) :=
  iteInduction (motive := Ends) (fun _ => yes) no

theorem outOfBounds (n : Nat) : Ends (throw (.outOfBounds n) : Outcome α) := Stop.noConfusion

theorem forRange {σ : Type} {body : Nat → σ → Outcome σ} {n first : Nat} {s : σ} (each : ∀ i s, Ends (body i s)) :
    Ends (Outcome.forRange body n first s) :=
  Meets.forRange (fun _ _ => True) rfl (fun i s _ _ _ => each i s) trivial

end Ends

theorem addWords_lt (data : List Byte) {sum : Nat} (small : sum < 2 ^ 32) : addWords data sum < 2 ^ 32 := by
  fun_induction addWords data sum with
  | case1 low high rest sum ih => exact ih (u32_lt _)
  | case2 last sum => exact u32_lt _
  | case3 sum => exact small

theorem foldCarries_ends {sum : Nat} (small : sum < 2 ^ 32) : Ends (foldCarries (2 ^ 32) sum) := by
  rw [foldCarries_eq small]
  exact .ok _

theorem findBestRoute_ends (net : Stack) (dst : Ipv4Addr) : Ends (findBestRoute net dst) := by
  refine .bind (.forRange fun i best => ?_) fun _ => .ok _
  rw [considerRoute]
  cases net.routes i with
  | none => exact .ok _
  | some r =>
    refine .ite (.ok _) fun _ => .ite (.ite (.ok _) fun _ => .ite ?_ fun _ => .ok _) fun _ => .ok _
    cases best.1 with
    | none => exact .outOfBounds 0
    | some known => exact .ok _

theorem ipSend_ends (net : Stack) (dst : Ipv4Addr) (protocol : Byte) (payload : List Byte) (len : BitVec 16) :
    Ends (ipSend net dst protocol payload len ⟨0, 0⟩) := by
  refine .bind (.bind (findBestRoute_ends net dst) fun _ => .ok _) ?_
  rintro ⟨index, route⟩
  cases index with
  | none => exact .ok _
  | some i =>
    refine .ite (.ok _) fun _ => ?_
    refine .bind (.ite (.ok _) fun _ => .outOfBounds _) fun nic => ?_
    refine .bind (.bind (foldCarries_ends (addUshorts_lt (by decide))) fun _ => .ok _) fun checksum => ?_
    refine .ite (.outOfBounds _) fun _ => ?_
    cases nic.driver with
    | none => exact .outOfBounds 0
    | some driver => exact .ok _

theorem sendBuffered_ends {i : Nat} {state : Stack × Emitted}
    (short : (state.1.conns i).Due → (state.1.conns i).payloadLen < 2 ^ 16) :
    Ends (sendBuffered i state) := by
  rw [sendBuffered]
  refine .ite (.ok _) fun busy => ?_
  rw [not_or, not_not] at busy
  rw [if_neg (Nat.not_le.mpr (short busy))]
  refine .bind (.bind (.bind (foldCarries_ends (addWords_lt _ (u32_lt _))) fun _ => .ok _) fun _ => ipSend_ends ..) fun _ => .ok _

/-- `tcp_send_buffered_data` ends, the length with which it gives a segment to `ip_send` is that of the segment, and when
there is a way the packet carries all the bytes, exactly if no connection has more than 65515 bytes to send. -/
theorem buffered_data_fits (t : Tcp) :
    Ends t.sendBufferedData ∧
      (∀ i < tcpMaxConnections, (t.conns i).Due →
        (BitVec.ofNat 16 ((t.conns i).payloadLen + 20)).toNat = (t.conns i).payloadLen + 20) ∧
      (∀ t' emitted, t.sendBufferedData = .ok (t', emitted) →
        ∀ i < tcpMaxConnections, (t.conns i).Due → Routed t.routes (t.conns i).remoteIp →
        (packetsOf i emitted).map segmentPayload = [(t.conns i).payload]) ↔
    ∀ i < tcpMaxConnections, (t.conns i).Due → (t.conns i).payloadLen + 20 < 2 ^ 16 := by
  constructor
  · rintro ⟨-, whole, -⟩ i inside due
    rw [← whole i inside due]
    exact BitVec.isLt _
  intro short
  refine ⟨?_, fun i inside due => ?_, fun t' emitted returned i inside due routed => ?_⟩
  · have start : Tcp.Flushing t.stack 0 (t.stack, []) :=
      ⟨⟨t.ipId, rfl⟩, fun j before => absurd before (Nat.not_lt_zero j), fun _ _ => rfl⟩
    have rounds : Meets (tcpSendBufferedData t.stack) (Tcp.Flushing t.stack tcpMaxConnections) (· ≠ .diverges) := by
      refine Meets.forRange (Tcp.Flushing t.stack) (Nat.zero_add _) (fun i state _ inside flushing => ?_) start
      have ends : Ends (sendBuffered i state) := by
        apply sendBuffered_ends
        rw [flushing.here]
        exact fun due => (Nat.le_add_right ..).trans_lt (short i inside due)
      cases round : sendBuffered i state with
      | ok state' => exact flushing.sendBuffered state' round
      | error stop => exact ends.failed round
    exact Meets.bind rounds fun _ _ => Ends.ok _
  · rw [BitVec.toNat_ofNat, Nat.mod_eq_of_lt (short i inside due)]
  · obtain ⟨-, carries, -⟩ := t.sendBufferedData_ensures _ returned
    obtain ⟨packet, only, -, payload⟩ := (carries i inside).2 due (short i inside due) routed
    rw [only, List.map_singleton, payload]

/-- An answer to SYN-ACK that acknowledges a hundred bytes that were never sent leaves 2³² - 100 bytes to be sent. -/
theorem early_acknowledgement_diverges :
    SendStream.perform 0 ⟨routedListening, [], []⟩ [synFrom1000 11, ackFrom1000 108 []] = .error .diverges := by
  have stops : (SendStream.perform 0 ⟨routedListening, [], []⟩ [synFrom1000 11, ackFrom1000 108 []]).map (fun _ => ()) =
      .error .diverges := by decide +kernel
  exact map_eq_error.mp stops

end Xos.Net
