import Xos.Lib.Fifo
import Xos.Net.TcpMachine

/-!
# The buffers of a connection

Head and tail count in a `uint` and are taken modulo the size of the buffer. The size divides the range of the counters,
so the bytes between them are a queue.
-/
namespace Xos.Net

open Lib BitVec List

theorem toNat_add_mod (x : BitVec 32) (n : Nat) : (x + BitVec.ofNat 32 n).toNat % 4096 = (x.toNat + n) % 4096 := by
  rw [toNat_add, toNat_ofNat, Nat.add_mod_mod]
  exact Nat.mod_mod_of_dvd _ (by decide)

theorem circular_ringWrite {start count : Nat} {buf : Nat → Byte} {head : BitVec 32} {bytes : List Byte}
    (place : head.toNat % 4096 = (start + count) % 4096) (room : count + bytes.length ≤ 4096) :
    circular (ringWrite 4096 buf head bytes) 4096 start (count + bytes.length) = circular buf 4096 start count ++ bytes := by
  induction bytes generalizing buf head count with
  | nil => exact (List.append_nil _).symm
  | cons b bytes ih =>
    -- the next byte goes behind the first one, which is then part of the queue
    rw [List.length_cons] at room
    have next : (head + 1).toNat % 4096 = (start + (count + 1)) % 4096 := by
      have moved := toNat_add_mod head 1
      rw [← Nat.mod_add_mod, place, Nat.mod_add_mod] at moved
      exact moved
    rw [ringWrite, List.length_cons, Nat.add_comm bytes.length 1, ← Nat.add_assoc, ih next (by omega), place,
      circular_push (by omega) b, List.append_assoc]
    rfl

namespace TcpActiveSocket

theorem payload_eq (conn : TcpActiveSocket) : conn.payload = circular conn.sendBuf 4096 conn.sendTail.toNat conn.payloadLen := by
  apply map_congr_left
  intro i _
  rw [sendBufSize, toNat_add_mod]

@[simp] theorem length_payload (conn : TcpActiveSocket) : conn.payload.length = conn.payloadLen := by
  simp [payload]

end TcpActiveSocket

namespace TcpConnection

variable {conn : TcpConnection}

/-- `tcp_send` puts its bytes behind those that are yet to be sent, where they fit. -/
theorem payload_push (data : Nat → Byte) {dataLen : BitVec 16} (room : conn.payloadLen + dataLen.toNat ≤ sendBufSize) :
    (conn.push data dataLen).payloadLen = conn.payloadLen + dataLen.toNat ∧
      (conn.push data dataLen).payload = conn.payload ++ bytesFrom data 0 dataLen.toNat := by
  have length : (bytesFrom data 0 dataLen.toNat).length = dataLen.toNat := by simp [bytesFrom]
  have size : (conn.push data dataLen).payloadLen = conn.payloadLen + dataLen.toNat := by
    simp only [TcpActiveSocket.payloadLen, push, sendBufSize] at room ⊢
    bv_omega
  have place : conn.sendHead.toNat % 4096 = (conn.sendTail.toNat + conn.payloadLen) % 4096 := by
    rw [← toNat_add_mod, conn.sendTail_add_payloadLen]
  refine ⟨size, ?_⟩
  rw [TcpActiveSocket.payload_eq, size, TcpActiveSocket.payload_eq]
  nth_rewrite 1 [← length]
  exact circular_ringWrite place (by rw [length]; exact room)

def unread (conn : TcpConnection) : List Byte := circular conn.recvBuf 4096 conn.recvTail.toNat (conn.recvHead - conn.recvTail).toNat

@[simp] theorem length_unread (conn : TcpConnection) : conn.unread.length = (conn.recvHead - conn.recvTail).toNat := length_circular

theorem unread_store {bytes : List Byte} (room : conn.unread.length + bytes.length ≤ recvBufSize) :
    (conn.store bytes).unread = conn.unread ++ bytes := by
  rw [length_unread, recvBufSize] at room
  have size : (conn.recvHead + BitVec.ofNat 32 bytes.length - conn.recvTail).toNat = (conn.recvHead - conn.recvTail).toNat + bytes.length := by
    bv_omega
  have place : conn.recvHead.toNat % 4096 = (conn.recvTail.toNat + (conn.recvHead - conn.recvTail).toNat) % 4096 := by
    rw [← toNat_add_mod, BitVec.ofNat_toNat, BitVec.setWidth_eq, BitVec.add_comm, BitVec.sub_add_cancel]
  simp only [unread, store, size]
  exact circular_ringWrite place room

theorem unread_read {n : Nat} (most : n ≤ conn.unread.length) :
    conn.unread = (List.range n).map (fun k => conn.recvBuf ((conn.recvTail + BitVec.ofNat 32 k).toNat % recvBufSize)) ++
      ({ conn with recvTail := conn.recvTail + BitVec.ofNat 32 n } : TcpConnection).unread := by
  rw [length_unread] at most
  obtain ⟨rest, all⟩ := Nat.exists_eq_add_of_le most
  have size : (conn.recvHead - (conn.recvTail + BitVec.ofNat 32 n)).toNat = rest := by
    bv_omega
  simp only [unread, size]
  rw [all, circular_append]
  congr 1
  · apply List.map_congr_left
    intro k _
    rw [recvBufSize, toNat_add_mod]
  · apply circular_congr
    rw [toNat_add_mod]

end TcpConnection

end Xos.Net
