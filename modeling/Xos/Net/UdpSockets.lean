import Xos.Net.Udp

/-!
# The table of UDP sockets

What a call does to the table is one change of one socket. A port is looked up among the open sockets when it is bound.
-/
namespace Xos.Net

open Function List Outcome Option

section Lookups

variable {u : Udp} {id port : BitVec 16} {i : Nat}

theorem getSocket_some (found : getSocket u id = some i) : i < udpMaxSockets ∧ (u i).id = id :=
  ⟨mem_range.mp (mem_of_find?_eq_some found), by simpa using find?_some found⟩

theorem getSocketForPort_some (found : getSocketForPort u port = some i) : i < udpMaxSockets ∧
    (u i).id ≠ 0 ∧ (u i).localPort = port :=
  ⟨mem_range.mp (mem_of_find?_eq_some found), by simpa using find?_some found⟩

theorem findFreeSocket_some (found : findFreeSocket u = some i) : i < udpMaxSockets ∧ (u i).id = 0 :=
  ⟨mem_range.mp (mem_of_find?_eq_some found), by simpa using find?_some found⟩

theorem isPortUsed_false (unused : isPortUsed u port = false) (inside : i < udpMaxSockets) (opened : (u i).id ≠ 0) :
    (u i).localPort ≠ port := by
  intro same
  have passed := any_eq_false.mp unused i (mem_range.mpr inside)
  exact passed (decide_eq_true ⟨opened, same⟩)

theorem getSocket_eq_some (inside : i < udpMaxSockets) (same : (u i).id = id) (only : ∀ j < udpMaxSockets, (u j).id = id → j = i) :
    getSocket u id = some i := by
  have found : (getSocket u id).isSome := by
    rw [getSocket, find?_isSome]
    exact ⟨i, mem_range.mpr inside, by simpa using same⟩
  obtain ⟨j, at_j⟩ := isSome_iff_exists.mp found
  obtain ⟨inside_j, same_j⟩ := getSocket_some at_j
  rw [at_j, only j inside_j same_j]

end Lookups

def destination (data : Nat → Byte) : BitVec 16 := htons (data 3 ++ data 2)

def payloadOf (data : Nat → Byte) (dataLen : BitVec 16) : List Byte := bytesFrom (fun j => data (8 + j)) 0 (dataLen - 8).toNat

def listener (u : Udp) (data : Nat → Byte) (dataLen : BitVec 16) : Option Nat :=
  if dataLen.toNat < 8 then none else (getSocketForPort u (destination data)).filter fun i => (u i).isListenting

variable {data : Nat → Byte}

theorem listener_some {u : Udp} {dataLen : BitVec 16} {i : Nat} (found : listener u data dataLen = some i) :
    getSocketForPort u (destination data) = some i ∧ (u i).isListenting = true := by
  rw [listener] at found
  split at found
  next => cases found
  next => simpa [filter_eq_some_iff] using found

/-- The end of `udp_on_data`. -/
def deliver (u : Udp) (data : Nat → Byte) (dataLen : BitVec 16) (i : Nat) : Outcome (Udp × Nat) := do
  let (_, packets) ← socketQueueWrite (u i).packets (fun j => data (8 + j)) (dataLen - 8)
  pure (update u i { u i with packets := packets, receiver := 0 }, (u i).receiver)

theorem udpOnData_eq (u : Udp) (data : Nat → Byte) (dataLen : BitVec 16) :
    udpOnData u data dataLen = (listener u data dataLen).elim (pure (u, 0)) (deliver u data dataLen) := by
  rw [udpOnData, listener]
  split
  next => rfl
  next =>
    simp only [destination]
    cases getSocketForPort u (htons (data 3 ++ data 2)) with
    | none => rfl
    | some i => cases listening : (u i).isListenting <;> simp [Option.filter, listening, deliver]

/-- The calls that `udp.c` offers, apart from those that send. -/
inductive UdpCall where
  | create (id : BitVec 16)
  | bind (id : BitVec 16) (addr : Ipv4Addr) (port : BitVec 16)
  | bindNic (id : BitVec 16) (nicId : Int)
  | listen (id : BitVec 16)
  | connect (id : BitVec 16) (addr : Ipv4Addr) (port : BitVec 16)
  | close (id : BitVec 16)
  | setReceiver (id : BitVec 16) (t : Nat)
  | receive (id : BitVec 16) (dataLen : BitVec 16)
  | datagram (data : Nat → Byte) (dataLen : BitVec 16)

namespace UdpCall

def run (u : Udp) : UdpCall → Outcome Udp
  | create id => pure (udpCreateSocket u id).2
  | bind id addr port => pure (udpBindSocket u id addr port).2
  | bindNic id nicId => pure (udpBindNic u id nicId).2
  | listen id => pure (udpListenSocket u id).2
  | connect id addr port => pure (udpConnect u id addr port).2
  | close id => pure (udpCloseSocket u id)
  | setReceiver id t => pure (udpSetReceiver u id t).2
  | receive id dataLen => pure (udpReceive u id dataLen).2.2
  | datagram data dataLen => do
    let (u, _) ← udpOnData u data dataLen
    pure u

def runAll (u : Udp) (calls : List UdpCall) : Outcome Udp := calls.foldlM run u

def created (old : UdpSocket) (id : BitVec 16) : UdpSocket := ⟨id, 0, 0, ipv4 0 0 0 0, ipv4 0 0 0 0, 0, false, 0, old.packets⟩

def target (u : Udp) : UdpCall → Option Nat
  | create _ => findFreeSocket u
  | bind id _ _ | bindNic id _ | listen id | connect id _ _ | close id | setReceiver id _ | receive id _ => getSocket u id
  | datagram data dataLen => listener u data dataLen

inductive Effect (u : Udp) (i : Nat) : UdpCall → UdpSocket → Prop
  | created {id} : (u i).id = 0 → Effect u i (.create id) (created (u i) id)
  | bound {id addr port} : isReserved port = false → isPortUsed u port = false →
      Effect u i (.bind id addr port) { u i with localPort := port, localAddr := addr }
  | refused {id addr port} : isReserved port = true ∨ isPortUsed u port = true → Effect u i (.bind id addr port) (u i)
  | nic {id nicId} : Effect u i (.bindNic id nicId) { u i with nicId := nicId }
  | listening {id} : Effect u i (.listen id) { u i with isListenting := true }
  | connected {id addr port} :
      Effect u i (.connect id addr port) { u i with isListenting := true, remotePort := port, remoteAddr := addr }
  | closed {id} : (u i).id = id → Effect u i (.close id) { u i with id := 0 }
  | waiting {id t receiver} : Effect u i (.setReceiver id t) { u i with receiver := receiver }
  | received {id dataLen} : Effect u i (.receive id dataLen) { u i with packets := (socketQueueRead (u i).packets dataLen).2.2 }
  | delivered {data dataLen result packets} :
      socketQueueWrite (u i).packets (fun j => data (8 + j)) (dataLen - 8) = .ok (result, packets) →
      Effect u i (.datagram data dataLen) { u i with packets := packets, receiver := 0 }

variable {u u' : Udp} {call : UdpCall} {id : BitVec 16} {i : Nat}

theorem target_lt (found : call.target u = some i) : i < udpMaxSockets := by
  cases call with
  | create => exact (findFreeSocket_some found).1
  | bind | bindNic | listen | connect | close | setReceiver | receive => exact (getSocket_some found).1
  | datagram => exact (getSocketForPort_some (listener_some found).1).1

theorem onSocket_cases {change : UdpSocket → UdpSocket} (found : getSocket u id = some i) :
    (onSocket u id change).2 = update u i (change (u i)) := by
  rw [onSocket, found]

theorem run_untargeted (found : call.target u = none) (ran : call.run u = .ok u') : u' = u := by
  cases call with
  | create | bind | bindNic | listen | connect | close | setReceiver | receive =>
    cases ran
    simp only [target] at found
    simp [udpCreateSocket, udpBindSocket, udpBindNic, udpListenSocket, udpConnect, udpCloseSocket, udpSetReceiver, udpReceive,
      onSocket, found]
  | datagram data dataLen =>
    obtain ⟨⟨after, woken⟩, ran, same⟩ := of_bind ran
    rw [udpOnData_eq, show listener u data dataLen = none from found] at ran
    cases ran
    cases same
    rfl

theorem run_targeted (found : call.target u = some i) (ran : call.run u = .ok u') :
    ∃ s, Effect u i call s ∧ u' = update u i s := by
  cases call with
  | create id =>
    cases ran
    simp only [target] at found
    refine ⟨_, .created (findFreeSocket_some found).2, ?_⟩
    simp [udpCreateSocket, found, created]
  | bind id addr port =>
    cases ran
    simp only [target] at found
    simp only [udpBindSocket, found]
    -- a port that is reserved or used is refused, and then nothing changes
    cases reserved : isReserved port with
    | true => exact ⟨_, .refused (.inl reserved), by simp⟩
    | false =>
      cases used : isPortUsed u port with
      | true => exact ⟨_, .refused (.inr used), by simp⟩
      | false => exact ⟨_, .bound reserved used, by simp⟩
  | bindNic =>
    cases ran
    exact ⟨_, .nic, onSocket_cases found⟩
  | listen =>
    cases ran
    exact ⟨_, .listening, onSocket_cases found⟩
  | connect =>
    cases ran
    exact ⟨_, .connected, onSocket_cases found⟩
  | close id =>
    cases ran
    simp only [target] at found
    exact ⟨_, .closed (getSocket_some found).2, by simp [udpCloseSocket, found]⟩
  | setReceiver id t =>
    cases ran
    simp only [target] at found
    simp only [udpSetReceiver, found]
    split
    next => exact ⟨{ u i with receiver := (u i).receiver }, .waiting, by simp⟩
    next => exact ⟨_, .waiting, rfl⟩
  | receive =>
    cases ran
    simp only [target] at found
    exact ⟨_, .received, by simp [udpReceive, found]⟩
  | datagram data dataLen =>
    obtain ⟨⟨after, woken⟩, ran, same⟩ := of_bind ran
    rw [udpOnData_eq, show listener u data dataLen = some i from found] at ran
    obtain ⟨⟨res, packets⟩, written, ret⟩ := of_bind ran
    cases ret
    cases same
    exact ⟨_, .delivered written, rfl⟩

theorem run_cases (ran : call.run u = .ok u') :
    (call.target u = none ∧ u' = u) ∨ ∃ i s, call.target u = some i ∧ Effect u i call s ∧ u' = update u i s := by
  cases found : call.target u with
  | none => exact .inl ⟨rfl, run_untargeted found ran⟩
  | some i =>
    obtain ⟨s, effect, same⟩ := run_targeted found ran
    exact .inr ⟨i, s, rfl, effect, same⟩

theorem runAll_keeps {P : Udp → Prop} (keeps : ∀ u call i s, i < udpMaxSockets → P u → Effect u i call s → P (update u i s))
    {calls : List UdpCall} (start : P u) (ran : runAll u calls = .ok u') : P u' := by
  induction calls generalizing u with
  | nil =>
    cases ran
    exact start
  | cons call calls ih =>
    obtain ⟨next, ran, rest⟩ := of_bind ran
    refine ih ?_ rest
    obtain ⟨-, rfl⟩ | ⟨i, s, found, effect, rfl⟩ := run_cases ran
    · exact start
    · exact keeps u call i s (target_lt found) start effect

end UdpCall

def DistinctIds (u : Udp) : Prop := ∀ i < udpMaxSockets, ∀ j < udpMaxSockets, (u i).id ≠ 0 → (u i).id = (u j).id → i = j

namespace DistinctIds

variable {u : Udp}

theorem update (distinct : DistinctIds u) {k : Nat} {s : UdpSocket} (own : s.id ≠ 0 → ∀ j < udpMaxSockets, j ≠ k → (u j).id ≠ s.id) :
    DistinctIds (update u k s) := by
  intro i insideI j insideJ opened same
  by_cases atI : i = k <;> by_cases atJ : j = k
  · rw [atI, atJ]
  · subst atI
    simp only [update_self, update_of_ne atJ] at opened same
    exact absurd same.symm (own opened j insideJ atJ)
  · subst atJ
    simp only [update_self, update_of_ne atI] at opened same
    exact absurd same (own (same ▸ opened) i insideI atI)
  · simp only [update_of_ne atI, update_of_ne atJ] at opened same
    exact distinct i insideI j insideJ opened same

theorem close (distinct : DistinctIds u) (id : BitVec 16) : DistinctIds (udpCloseSocket u id) := by
  rw [udpCloseSocket]
  cases getSocket u id with
  | none => exact distinct
  | some k => exact distinct.update fun opened => absurd rfl opened

end DistinctIds

/-- No two open sockets have a port in common other than 0, and none has one that is reserved. -/
structure PortsOwned (u : Udp) : Prop where
  own : ∀ i < udpMaxSockets, ∀ j < udpMaxSockets, (u i).id ≠ 0 → (u j).id ≠ 0 → (u i).localPort ≠ 0 → (u i).localPort = (u j).localPort → i = j
  free : ∀ i < udpMaxSockets, isReserved (u i).localPort = false

namespace PortsOwned

variable {u : Udp} {i : Nat} {s : UdpSocket}

theorem boot : PortsOwned udpInit where
  own _ _ _ _ opened := absurd rfl opened
  free _ _ := rfl

theorem update (owned : PortsOwned u) (free : isReserved s.localPort = false)
    (own : s.id ≠ 0 → s.localPort ≠ 0 → ∀ j < udpMaxSockets, j ≠ i → (u j).id ≠ 0 → (u j).localPort ≠ s.localPort) :
    PortsOwned (update u i s) where
  own a insideA b insideB openA openB port same := by
    by_cases atA : a = i <;> by_cases atB : b = i
    · rw [atA, atB]
    · subst atA
      simp only [update_self, update_of_ne atB] at openA openB port same
      exact absurd same.symm (own openA port b insideB atB openB)
    · subst atB
      simp only [update_self, update_of_ne atA] at openA openB port same
      exact absurd same (own openB (same ▸ port) a insideA atA openA)
    · simp only [update_of_ne atA, update_of_ne atB] at openA openB port same
      exact owned.own a insideA b insideB openA openB port same
  free a insideA := by
    by_cases atA : a = i
    · rw [atA, update_self]
      exact free
    · rw [update_of_ne atA]
      exact owned.free a insideA

theorem update_same (owned : PortsOwned u) (inside : i < udpMaxSockets) (port : s.localPort = (u i).localPort)
    (opens : s.id ≠ 0 → (u i).id ≠ 0) : PortsOwned (Function.update u i s) := by
  apply owned.update
  · rw [port]
    exact owned.free i inside
  · intro opened bound j insideJ other openJ same
    rw [port] at bound same
    exact other (owned.own i inside j insideJ (opens opened) openJ bound same.symm).symm

theorem step {call : UdpCall} (owned : PortsOwned u) (inside : i < udpMaxSockets) (effect : UdpCall.Effect u i call s) :
    PortsOwned (Function.update u i s) := by
  cases effect with
  | created => exact owned.update rfl fun _ bound => absurd rfl bound
  | bound reserved unused => exact owned.update reserved fun _ _ j insideJ _ opened => isPortUsed_false unused insideJ opened
  | refused | nic | listening | connected | waiting | received | delivered => exact owned.update_same inside rfl id
  | closed => exact owned.update_same inside rfl fun opened => absurd rfl opened

theorem runAll {calls : List UdpCall} (ran : UdpCall.runAll udpInit calls = .ok u) : PortsOwned u :=
  UdpCall.runAll_keeps (fun _ _ _ _ inside owned effect => owned.step inside effect) .boot ran

end PortsOwned

/-- The datagram changes no queue but that of an open socket that listens and is bound to its port. -/
def ReachesOwner (u : Udp) (data : Nat → Byte) (dataLen : BitVec 16) : Prop :=
  ∃ u' woken, udpOnData u data dataLen = .ok (u', woken) ∧
    ∀ i, (u' i).packets ≠ (u i).packets →
      i < udpMaxSockets ∧ (u i).id ≠ 0 ∧ (u i).isListenting = true ∧ (u i).localPort = destination data

def FitsSlot (u : Udp) (data : Nat → Byte) (dataLen : BitVec 16) : Prop :=
  ∀ i, listener u data dataLen = some i → ((u i).packets.head + 1) % socketQueueSize ≠ (u i).packets.tail →
    (dataLen - 8).toNat ≤ ipMaxPacketSize

theorem socketQueueWrite_isOk {q : SocketQueue} {len : BitVec 16} :
    (∃ res q', socketQueueWrite q data len = .ok (res, q')) ↔
      ((q.head + 1) % socketQueueSize ≠ q.tail → len.toNat ≤ ipMaxPacketSize) := by
  rw [socketQueueWrite]
  split
  next full => exact ⟨fun _ room => absurd full room, fun _ => ⟨_, _, rfl⟩⟩
  next room =>
    split
    next long =>
      constructor
      · rintro ⟨_, _, ⟨⟩⟩
      · exact fun fits => absurd (fits room) (by omega)
    next short => exact ⟨fun _ _ => by omega, fun _ => ⟨_, _, rfl⟩⟩

theorem udpOnData_isOk {u : Udp} {dataLen : BitVec 16} :
    (∃ u' woken, udpOnData u data dataLen = .ok (u', woken)) ↔ FitsSlot u data dataLen := by
  rw [udpOnData_eq, FitsSlot]
  cases found : listener u data dataLen with
  | none =>
    constructor
    · intro _ i at_i
      cases at_i
    · exact fun _ => ⟨u, 0, rfl⟩
  | some i =>
    constructor
    · rintro ⟨u', woken, ran⟩ j at_j
      cases at_j
      obtain ⟨⟨res, q⟩, written, -⟩ := of_bind ran
      exact socketQueueWrite_isOk.mp ⟨res, q, written⟩
    · intro fits
      obtain ⟨res, q, written⟩ := socketQueueWrite_isOk.mpr (fits i rfl)
      exact ⟨_, _, bind_eq_ok.mpr ⟨_, written, rfl⟩⟩

/-- After any calls no two open sockets share a port other than 0 and no socket is bound to a reserved one, and a
datagram changes only the queue of the open, listening socket that is bound to its port, just when it is dropped or
fits into a slot of the queue. -/
theorem ports_owned_iff {calls : List UdpCall} {u : Udp} (ran : UdpCall.runAll udpInit calls = .ok u) :
    PortsOwned u ∧ ∀ data dataLen, ReachesOwner u data dataLen ↔ FitsSlot u data dataLen := by
  refine ⟨.runAll ran, ?_⟩
  intro data dataLen
  constructor
  · rintro ⟨u', woken, returned, -⟩
    exact udpOnData_isOk.mp ⟨u', woken, returned⟩
  · intro fits
    obtain ⟨u', woken, returned⟩ := udpOnData_isOk.mpr fits
    refine ⟨u', woken, returned, ?_⟩
    intro i changed
    have ran : (UdpCall.datagram data dataLen).run u = .ok u' := bind_eq_ok.mpr ⟨_, returned, rfl⟩
    obtain ⟨-, rfl⟩ | ⟨k, s, found, -, rfl⟩ := UdpCall.run_cases ran
    · exact absurd rfl changed
    · have here : i = k := by
        by_contra other
        exact changed (by rw [update_of_ne other])
      subst here
      obtain ⟨bound, listening⟩ := listener_some found
      obtain ⟨inside, opened, port⟩ := getSocketForPort_some bound
      exact ⟨inside, opened, listening, port⟩

def datagramTo (port : BitVec 16) : Nat → Byte := fun i => (UdpHeader.mk 0 (htons port) 0 0).bytes.getD i 0

/-- A socket that listens at port 1000, with the last slot of its queue next. -/
def lastSlotNext : List UdpCall :=
  [.create 1, .bind 1 0 1000, .listen 1] ++ (replicate 7 [.datagram (datagramTo 1000) 8, .receive 1 0]).flatten

/-- In the last slot of its queue a datagram of 1600 bytes is copied beyond the queue and into the next socket. -/
theorem long_datagram_overruns :
    ∃ u, UdpCall.runAll udpInit lastSlotNext = .ok u ∧ (u 0).packets.head = 7 ∧
      udpOnData u (datagramTo 1000) 1608 = .error (.outOfBounds 1500) ∧ ¬ReachesOwner u (datagramTo 1000) 1608 := by
  have observed : (UdpCall.runAll udpInit lastSlotNext >>= fun u =>
      pure ((u 0).packets.head, (udpOnData u (datagramTo 1000) 1608).map fun _ => ())) = .ok (7, .error (.outOfBounds 1500)) := by decide +kernel
  obtain ⟨u, ran, seen⟩ := of_bind observed
  obtain ⟨head, stopped⟩ := ok_inj seen
  cases delivered : udpOnData u (datagramTo 1000) 1608 with
  | ok after =>
    rw [delivered] at stopped
    cases stopped
  | error stop =>
    rw [delivered] at stopped
    cases stopped
    refine ⟨u, ran, head, delivered, ?_⟩
    rintro ⟨u', woken, returned, -⟩
    rw [delivered] at returned
    cases returned

theorem short_datagram_reaches_owner :
    ∃ u, UdpCall.runAll udpInit [.create 1, .bind 1 0 1000, .listen 1] = .ok u ∧ PortsOwned u ∧
      ReachesOwner u (datagramTo 1000) 12 := by
  have ran : UdpCall.runAll udpInit [.create 1, .bind 1 0 1000, .listen 1] = .ok _ := rfl
  obtain ⟨owned, reaches⟩ := ports_owned_iff ran
  exact ⟨_, ran, owned, (reaches _ _).mpr fun _ _ _ => by decide⟩

end Xos.Net
