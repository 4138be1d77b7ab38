import Xos.Lib.Fifo
import Xos.Net.UdpSockets

/-!
# The queues of UDP sockets

A circular buffer of eight slots, of which seven can be in use. Nothing keeps a datagram that is longer than a slot out
of it.
-/
namespace Xos.Net

open Lib Relation List

section Bytes

variable {data : Nat → Byte} {count : Nat}

theorem length_bytesFrom {first : Nat} : (bytesFrom data first count).length = count := by simp [bytesFrom]

theorem take_bytesFrom {first : Nat} (n : Nat) : (bytesFrom data first count).take n = bytesFrom data first (min n count) := by
  simp only [bytesFrom, ← map_take, take_range]

theorem bytesFrom_memcpy8 (dst : Nat → Byte) :
    bytesFrom (memcpy8 dst (bytesFrom data 0 count)) 0 count = bytesFrom data 0 count := by
  apply map_congr_left
  intro i inside
  have bound : i < (bytesFrom data 0 count).length := by
    rw [length_bytesFrom]
    exact mem_range.mp inside
  rw [Nat.zero_add, memcpy8, getD_eq_getElem _ _ bound]
  simp [bytesFrom]

end Bytes

def SocketPacket.bytes (packet : SocketPacket) : List Byte := bytesFrom packet.data 0 packet.len.toNat

def enqueue (items : List (List Byte)) (item : List Byte) : List (List Byte) := if items.length < 7 then items ++ [item] else items

/-- What `socket_queue_read` returns, and the bytes it copies. -/
def answer : List (List Byte) → BitVec 16 → Int × List Byte
  | [], _ => (0, [])
  | item :: _, maxLen => (1, item.take maxLen.toNat)

namespace SocketQueue

def contents (q : SocketQueue) : List (List Byte) := (ring q.packets socketQueueSize q.head q.tail).map SocketPacket.bytes

def Valid (q : SocketQueue) : Prop := q.head < socketQueueSize ∧ q.tail < socketQueueSize

variable {q q' : SocketQueue} {data : Nat → Byte} {len : BitVec 16} {res : Int}

section

variable (valid : q.Valid)
include valid

theorem Valid.length_contents : q.contents.length ≤ 7 := by
  rw [contents, length_map]
  exact Nat.le_of_lt_succ (length_ring_lt valid.1 valid.2)

theorem Valid.contents_eq_nil : q.contents = [] ↔ q.head = q.tail := by
  rw [contents, map_eq_nil_iff, ring_eq_nil valid.1 valid.2]

theorem Valid.full_iff : (q.head + 1) % socketQueueSize = q.tail ↔ ¬q.contents.length < 7 := by
  have bound := valid.length_contents
  have full : _ ↔ (ring q.packets socketQueueSize q.head q.tail).length + 1 = socketQueueSize := ring_full valid.1 valid.2
  rw [contents, length_map] at *
  simp only [socketQueueSize] at *
  omega

theorem Valid.write (written : socketQueueWrite q data len = .ok (res, q')) :
    q'.Valid ∧ q'.contents = enqueue q.contents (bytesFrom data 0 len.toNat) := by
  rw [socketQueueWrite] at written
  split at written
  next full =>
    cases written
    exact ⟨valid, by rw [enqueue, if_neg (valid.full_iff.mp full)]⟩
  next room =>
    split at written
    next => cases written
    next short =>
      cases written
      refine ⟨⟨Nat.mod_lt _ (by decide), valid.2⟩, ?_⟩
      rw [enqueue, if_pos (not_not.mp (valid.full_iff.not.mp room)), contents, ring_push valid.1 valid.2 room]
      simp [contents, SocketPacket.bytes, bytesFrom_memcpy8]

theorem Valid.read (maxLen : BitVec 16) :
    (socketQueueRead q maxLen).2.2.Valid ∧ (socketQueueRead q maxLen).2.2.contents = q.contents.tail ∧
      ((socketQueueRead q maxLen).1, (socketQueueRead q maxLen).2.1) = answer q.contents maxLen := by
  rw [socketQueueRead]
  split
  next empty =>
    rw [valid.contents_eq_nil.mpr empty]
    exact ⟨valid, rfl, rfl⟩
  next some =>
    have popped : q.contents = (q.packets q.tail).bytes :: SocketQueue.contents { q with tail := (q.tail + 1) % socketQueueSize } := by
      rw [contents, ring_pop valid.1 valid.2 some, map_cons]
      rfl
    refine ⟨⟨valid.1, Nat.mod_lt _ (by decide)⟩, by rw [popped]; rfl, ?_⟩
    rw [popped, answer, SocketPacket.bytes, take_bytesFrom]
    congr 2
    dsimp only
    split
    next less => rw [Nat.min_eq_left (Nat.le_of_lt less)]
    next more => rw [Nat.min_eq_right (Nat.not_lt.mp more)]

end

end SocketQueue

/-- What `udp_receive` returns, and the bytes it copies. -/
def receives (u : Udp) (id maxLen : BitVec 16) : Int × List Byte := ((udpReceive u id maxLen).1, (udpReceive u id maxLen).2.1)

variable {k : Nat}

theorem receives_eq {u : Udp} {id : BitVec 16} (found : getSocket u id = some k) (valid : (u k).packets.Valid) (maxLen : BitVec 16) :
    receives u id maxLen = answer (u k).packets.contents maxLen := by
  rw [← (valid.read maxLen).2.2]
  simp [receives, udpReceive, found]

def UdpCall.queued : UdpCall → List (List Byte) → List (List Byte)
  | .datagram data dataLen, items => enqueue items (payloadOf data dataLen)
  | .receive _ _, items => items.tail
  | _, items => items

theorem contents_run {u u' : Udp} {call : UdpCall} (valid : (u k).packets.Valid) (ran : call.run u = .ok u') :
    (u' k).packets.Valid ∧
      (u' k).packets.contents = if call.target u = some k then call.queued (u k).packets.contents else (u k).packets.contents := by
  obtain ⟨found, rfl⟩ | ⟨i, s, found, effect, rfl⟩ := UdpCall.run_cases ran
  · rw [found, if_neg (by simp)]
    exact ⟨valid, rfl⟩
  · rw [found]
    by_cases here : i = k
    · subst here
      rw [if_pos rfl, Function.update_self]
      cases effect with
      | created | bound | refused | nic | listening | connected | closed | waiting => exact ⟨valid, rfl⟩
      | received => exact ⟨(valid.read _).1, (valid.read _).2.1⟩
      | delivered written => exact valid.write written
    · rw [if_neg (by simpa using here), Function.update_of_ne (Ne.symm here)]
      exact ⟨valid, rfl⟩

/-- One socket, with the datagrams that it has accepted and how many of them have been received. -/
structure Mailbox where
  udp : Udp
  accepted : List (List Byte)
  received : Nat

namespace Mailbox

def pending (m : Mailbox) : List (List Byte) := m.accepted.drop m.received

/-- `udp_on_data` and `udp_receive`, for any socket. The one at `k` accepts a datagram when fewer than seven are
pending, and each `udp_receive` takes one. -/
inductive Step (k : Nat) (m : Mailbox) : Mailbox → Prop
  | arrives {data dataLen u woken} : udpOnData m.udp data dataLen = .ok (u, woken) →
      Step k m ⟨u, m.accepted ++ (if listener m.udp data dataLen = some k ∧ m.pending.length < 7 then [payloadOf data dataLen] else []),
        m.received⟩
  | receives (id maxLen : BitVec 16) :
      Step k m ⟨(udpReceive m.udp id maxLen).2.2, m.accepted,
        m.received + (if getSocket m.udp id = some k ∧ m.pending ≠ [] then 1 else 0)⟩

def StaysInside (m : Mailbox) (k : Nat) (data : Nat → Byte) (dataLen : BitVec 16) : Prop :=
  listener m.udp data dataLen = some k → ∃ u woken, udpOnData m.udp data dataLen = .ok (u, woken)

def firstOf : List (List Byte) → BitVec 16 → Int × List Byte
  | [], _ => (0, [])
  | item :: _, maxLen => ((min item.length maxLen.toNat : Nat), item.take maxLen.toNat)

/-- The next `udp_receive` copies the first of the pending datagrams and returns the number of bytes. -/
def Hands (m : Mailbox) (k : Nat) (id maxLen : BitVec 16) : Prop :=
  getSocket m.udp id = some k → Net.receives m.udp id maxLen = firstOf m.pending maxLen

structure Kept (k : Nat) (m : Mailbox) : Prop where
  valid : (m.udp k).packets.Valid
  contents : (m.udp k).packets.contents = m.pending
  received : m.received ≤ m.accepted.length

variable {m : Mailbox}

theorem Kept.length_pending (kept : Kept k m) : m.pending.length ≤ 7 := by
  rw [← kept.contents]
  exact kept.valid.length_contents

theorem pending_accept (received : m.received ≤ m.accepted.length) (u : Udp) (more : List (List Byte)) :
    pending ⟨u, m.accepted ++ more, m.received⟩ = m.pending ++ more :=
  drop_append_of_le_length received

theorem pending_take (m : Mailbox) (u : Udp) : pending ⟨u, m.accepted, m.received + 1⟩ = m.pending.tail := by
  simp [pending]

theorem Step.kept {m' : Mailbox} (kept : Kept k m) (step : Step k m m') : Kept k m' := by
  obtain ⟨valid, contents, received⟩ := kept
  cases step with
  | @arrives data dataLen u woken ret =>
    have ran : (UdpCall.datagram data dataLen).run m.udp = .ok u := Outcome.bind_eq_ok.mpr ⟨_, ret, rfl⟩
    obtain ⟨valid', contents'⟩ := contents_run valid ran
    refine ⟨valid', ?_, received.trans (by simp)⟩
    rw [contents', contents, pending_accept received]
    simp only [UdpCall.target, UdpCall.queued, enqueue]
    by_cases found : listener m.udp data dataLen = some k
    · simp only [found, true_and, if_true]
      split
      next => rfl
      next => rw [append_nil]
    · simp [found]
  | receives id maxLen =>
    have ran : (UdpCall.receive id maxLen).run m.udp = .ok (udpReceive m.udp id maxLen).2.2 := rfl
    obtain ⟨valid', contents'⟩ := contents_run valid ran
    simp only [UdpCall.target, UdpCall.queued, contents] at contents'
    by_cases taken : getSocket m.udp id = some k ∧ m.pending ≠ []
    · rw [if_pos taken]
      have some : m.received < m.accepted.length := by
        by_contra all
        exact taken.2 (drop_eq_nil_of_le (by omega))
      exact ⟨valid', by rw [contents', if_pos taken.1, pending_take], some⟩
    · rw [if_neg taken]
      refine ⟨valid', contents'.trans ?_, received⟩
      split
      next found =>
        -- nothing is pending, so nothing is taken
        have none : m.pending = [] := by simpa [found] using taken
        rw [none]
        exact none.symm
      next => rfl

theorem Kept.staysInside_iff (kept : Kept k m) (data : Nat → Byte) (dataLen : BitVec 16) :
    m.StaysInside k data dataLen ↔
      (listener m.udp data dataLen = some k → m.pending.length < 7 → (payloadOf data dataLen).length ≤ 1500) := by
  apply imp_congr_right
  intro found
  have room : ((m.udp k).packets.head + 1) % socketQueueSize ≠ (m.udp k).packets.tail ↔ m.pending.length < 7 := by
    rw [← kept.contents, ne_eq, kept.valid.full_iff, not_not]
  rw [udpOnData_isOk, FitsSlot, payloadOf, length_bytesFrom, found, ← room]
  exact ⟨fun fits => fits k rfl, fun fits i here => Option.some.inj here ▸ fits⟩

theorem Kept.hands_iff (kept : Kept k m) (id maxLen : BitVec 16) :
    m.Hands k id maxLen ↔ (getSocket m.udp id = some k → ∀ item rest, m.pending = item :: rest → min item.length maxLen.toNat = 1) := by
  apply imp_congr_right
  intro found
  rw [receives_eq found kept.valid, kept.contents]
  cases m.pending with
  | nil => simp [answer, firstOf]
  | cons item rest =>
    constructor
    · intro same item' rest' here
      cases here
      have counted := congrArg Prod.fst same
      simp only [answer, firstOf] at counted
      omega
    · intro one
      rw [answer, firstOf, one item rest rfl]
      rfl

theorem Kept.run {u₀ : Udp} (start : (u₀ k).packets.Valid)
    (run : ReflTransGen (Step k) ⟨u₀, (u₀ k).packets.contents, 0⟩ m) : Kept k m := by
  induction run with
  | refl => exact ⟨start, rfl, Nat.zero_le _⟩
  | tail _ step ih => exact step.kept ih

/-- A socket hands out the datagrams that it has accepted in their order, and never has more than seven pending. A
datagram is written inside a slot just when it is not accepted or fits, and the number that `udp_receive` returns is
the one of the bytes it copies just when there is nothing or that number is 1. -/
theorem mailbox_in_order {k : Nat} {u₀ : Udp} {m : Mailbox} (start : (u₀ k).packets.Valid)
    (run : ReflTransGen (Step k) ⟨u₀, (u₀ k).packets.contents, 0⟩ m) :
    m.pending.length ≤ 7 ∧ (m.udp k).packets.contents = m.pending ∧
      (∀ id maxLen, getSocket m.udp id = some k → (receives m.udp id maxLen).2 = (m.pending.headD []).take maxLen.toNat) ∧
      (∀ data dataLen, m.StaysInside k data dataLen ↔
        (listener m.udp data dataLen = some k → m.pending.length < 7 → (payloadOf data dataLen).length ≤ 1500)) ∧
      ∀ id maxLen, m.Hands k id maxLen ↔
        (getSocket m.udp id = some k → ∀ item rest, m.pending = item :: rest → min item.length maxLen.toNat = 1) := by
  have kept := Kept.run start run
  refine ⟨kept.length_pending, kept.contents, ?_, kept.staysInside_iff, kept.hands_iff⟩
  intro id maxLen found
  rw [receives_eq found kept.valid, kept.contents]
  cases m.pending <;> simp [answer]

/-- A socket that listens at port 1000, before anything has come in. -/
def listener1000 : Udp := (udpListenSocket (udpBindSocket (udpCreateSocket udpInit 1).2 1 0 1000).2 1).2

/-- For a datagram of four bytes `udp_receive` returns 1, and one of 1600 bytes is written past the end of the slot. -/
theorem receive_returns_one :
    ∃ m, ReflTransGen (Step 0) ⟨listener1000, (listener1000 0).packets.contents, 0⟩ m ∧ receives m.udp 1 100 = (1, [0, 0, 0, 0]) ∧
      ¬m.Hands 0 1 100 ∧ ¬m.StaysInside 0 (datagramTo 1000) 1608 := by
  have arrived : udpOnData listener1000 (datagramTo 1000) 12 = .ok _ := rfl
  have run : ReflTransGen (Step 0) ⟨listener1000, (listener1000 0).packets.contents, 0⟩ _ := .single (.arrives arrived)
  have kept := Kept.run ⟨by decide, by decide⟩ run
  refine ⟨_, run, by decide, ?_, ?_⟩
  · rw [kept.hands_iff]
    intro one
    exact absurd (one (by decide) _ _ rfl) (by decide)
  · rw [kept.staysInside_iff]
    intro fits
    have short := fits (by decide) (by decide)
    rw [payloadOf, length_bytesFrom] at short
    exact absurd short (by decide)

theorem one_byte_handed :
    ∃ m, ReflTransGen (Step 0) ⟨listener1000, (listener1000 0).packets.contents, 0⟩ m ∧ m.pending = [[0]] ∧
      m.Hands 0 1 100 ∧ m.StaysInside 0 (datagramTo 1000) 12 := by
  have arrived : udpOnData listener1000 (datagramTo 1000) 9 = .ok _ := rfl
  have run : ReflTransGen (Step 0) ⟨listener1000, (listener1000 0).packets.contents, 0⟩ _ := .single (.arrives arrived)
  obtain ⟨-, -, -, inside, hands⟩ := mailbox_in_order ⟨by decide, by decide⟩ run
  refine ⟨_, run, by decide, (hands 1 100).mpr ?_, (inside _ _).mpr ?_⟩
  · intro _ item rest here
    cases here
    decide
  · exact fun _ _ => by decide

end Mailbox

end Xos.Net
