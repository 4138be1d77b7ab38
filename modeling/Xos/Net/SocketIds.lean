import Xos.Net.Identity
import Xos.Net.UdpSockets

/-!
# The ids of sockets

`socket` draws the id of a socket from a counter of 16 bits and asks neither whether it is 0, which marks a
free socket, nor whether a socket that is still open has it.
-/
namespace Xos.Net

open Relation Function

/-- The handle that `socket` returns when it fails. -/
def noSocket : SocketHandle := ⟨.raw, 0⟩

namespace Sockets

def boot (tcp : Tcp) : Sockets := ⟨tcp, udpInit, 1⟩

/-- `socket(SOCKET_UDP)` or a `socket_close` that returns. -/
inductive Step (s : Sockets) : Sockets → Prop
  | opened (tcpSocket : Int) : Step s (socket s .udp tcpSocket).2
  | closed {handle s' emitted} : socketClose s handle = .ok (s', emitted) → Step s s'

def Fresh (s : Sockets) : Prop :=
  (findFreeSocket s.udp).isSome → s.nextSocketId ≠ 0 ∧ ∀ i < udpMaxSockets, (s.udp i).id ≠ s.nextSocketId

inductive FreshStep (s : Sockets) : Sockets → Prop
  | opened (tcpSocket : Int) : s.Fresh → FreshStep s (socket s .udp tcpSocket).2
  | closed {handle s' emitted} : socketClose s handle = .ok (s', emitted) → FreshStep s s'

/-- The next `socket(SOCKET_UDP)` leaves open sockets with ids of their own, and if it reports success a socket
that was free has the id that it returns. -/
def Claims (s : Sockets) (tcpSocket : Int) : Prop :=
  DistinctIds (socket s .udp tcpSocket).2.udp ∧
    ((socket s .udp tcpSocket).1 ≠ noSocket →
      ∃ i < udpMaxSockets, (s.udp i).id = 0 ∧ ((socket s .udp tcpSocket).2.udp i).id ≠ 0 ∧
        ((socket s .udp tcpSocket).2.udp i).id = (socket s .udp tcpSocket).1.id ∧
        ∀ j, j ≠ i → (socket s .udp tcpSocket).2.udp j = s.udp j)

variable {s : Sockets}

theorem socket_full (full : findFreeSocket s.udp = none) (tcpSocket : Int) :
    socket s .udp tcpSocket = (noSocket, { s with nextSocketId := s.nextSocketId + 1 }) := by
  simp [socket, udpCreateSocket, full, noSocket]

theorem socket_claimed {k : Nat} (free : findFreeSocket s.udp = some k) (tcpSocket : Int) :
    socket s .udp tcpSocket = (⟨.udp, s.nextSocketId⟩,
      ⟨s.tcp, update s.udp k (UdpCall.created (s.udp k) s.nextSocketId), s.nextSocketId + 1⟩) := by
  simp [socket, udpCreateSocket, free, UdpCall.created]

theorem socketClose_udp (s : Sockets) (id : BitVec 16) :
    socketClose s ⟨.udp, id⟩ = .ok ({ s with udp := udpCloseSocket s.udp id }, []) := rfl

theorem socketClose_cases {s' : Sockets} {handle : SocketHandle} {emitted : Emitted}
    (closed : socketClose s handle = .ok (s', emitted)) :
    s'.udp = udpCloseSocket s.udp handle.id ∨ s'.udp = s.udp := by
  obtain ⟨protocol, id⟩ := handle
  cases protocol with
  | raw | icmp => cases closed
  | tcp =>
    obtain ⟨_, _, same⟩ := Outcome.of_bind closed
    cases same
    exact .inr rfl
  | udp =>
    cases closed
    exact .inl rfl

theorem Claims.of_fresh (distinct : DistinctIds s.udp) (fresh : s.Fresh) (tcpSocket : Int) : s.Claims tcpSocket := by
  cases free : findFreeSocket s.udp with
  | none =>
    rw [Claims, socket_full free]
    exact ⟨distinct, fun success => absurd rfl success⟩
  | some k =>
    obtain ⟨nonzero, unused⟩ := fresh (by rw [free]; rfl)
    obtain ⟨inside, empty⟩ := findFreeSocket_some free
    rw [Claims, socket_claimed free]
    refine ⟨distinct.update fun _ j insideJ _ => unused j insideJ, fun _ => ⟨k, inside, empty, ?_, ?_, ?_⟩⟩
    · simpa [UdpCall.created] using nonzero
    · simp [UdpCall.created]
    · intro j other
      exact update_of_ne other ..

theorem Claims.fresh {tcpSocket : Int} (claims : s.Claims tcpSocket) : s.Fresh := by
  intro some
  obtain ⟨k, free⟩ := Option.isSome_iff_exists.mp some
  obtain ⟨inside, empty⟩ := findFreeSocket_some free
  simp only [Claims, socket_claimed free] at claims
  obtain ⟨distinct, claimed⟩ := claims
  have nonzero : s.nextSocketId ≠ 0 := by
    -- success is reported, so the id is that of a socket which is now open
    obtain ⟨i, -, -, opened, same, -⟩ := claimed (by simp [noSocket])
    exact fun zero => opened (same.trans zero)
  refine ⟨nonzero, ?_⟩
  intro i insideI same
  have other : i ≠ k := by
    rintro rfl
    exact nonzero (same.symm.trans empty)
  apply other
  apply distinct i insideI k inside
  · rw [update_of_ne other, same]
    exact nonzero
  · rw [update_of_ne other, update_self, same]
    rfl

theorem FreshStep.distinct {s' : Sockets} (distinct : DistinctIds s.udp) (step : s.FreshStep s') : DistinctIds s'.udp := by
  cases step with
  | opened tcpSocket fresh => exact (Claims.of_fresh distinct fresh tcpSocket).1
  | closed ran =>
    obtain same | same := socketClose_cases ran
    · rw [same]
      exact distinct.close _
    · rw [same]
      exact distinct

/-- After any calls that drew fresh ids the open sockets have ids of their own, and the next call claims a socket of
its own just when the id it draws is fresh. -/
theorem claims_iff_fresh {tcp : Tcp} {s : Sockets} (run : ReflTransGen FreshStep (boot tcp) s) :
    DistinctIds s.udp ∧ ∀ tcpSocket, s.Claims tcpSocket ↔ s.Fresh := by
  have distinct : DistinctIds s.udp := by
    induction run with
    | refl => exact fun i _ j _ opened => absurd rfl opened
    | tail _ step ih => exact step.distinct ih
  exact ⟨distinct, fun tcpSocket => ⟨Claims.fresh, fun fresh => .of_fresh distinct fresh tcpSocket⟩⟩

structure FirstOnly (s : Sockets) (next : BitVec 16) : Prop where
  first : (s.udp 0).id = 1
  others : ∀ i < udpMaxSockets, i ≠ 0 → (s.udp i).id = 0
  next : s.nextSocketId = next

theorem FirstOnly.free {next : BitVec 16} (only : s.FirstOnly next) : findFreeSocket s.udp = some 1 := by
  rw [findFreeSocket, List.find?_range_eq_some]
  refine ⟨by simp [only.others 1 (by decide)], by decide, ?_⟩
  intro j below
  obtain rfl : j = 0 := by omega
  simp [only.first]

theorem FirstOnly.again {next : BitVec 16} (only : s.FirstOnly next) (other : next ≠ 1) :
    ∃ s', ReflTransGen Step s s' ∧ s'.FirstOnly (next + 1) := by
  have opened := socket_claimed only.free 0
  have found : getSocket (socket s .udp 0).2.udp next = some 1 := by
    rw [opened, getSocket, List.find?_range_eq_some]
    refine ⟨by simp [UdpCall.created, only.next], by decide, ?_⟩
    intro j below
    obtain rfl : j = 0 := by omega
    simpa [only.first] using Ne.symm other
  refine ⟨_, .tail (.single (.opened 0)) (.closed (socketClose_udp _ next)), ?_⟩
  simp only [udpCloseSocket, found]
  rw [opened]
  constructor
  · simp [only.first]
  · intro i inside nonzero
    by_cases second : i = 1
    · simp [second]
    · simp [second, only.others i inside nonzero]
  · simp [only.next]

theorem FirstOnly.many (tcp : Tcp) (count : Nat) (below : count < 65536) :
    ∃ s, ReflTransGen Step (boot tcp) s ∧ s.FirstOnly (BitVec.ofNat 16 (2 + count)) := by
  induction count with
  | zero =>
    refine ⟨_, .single (.opened 0), ?_, ?_, rfl⟩
    · rfl
    · intro i inside nonzero
      have free : findFreeSocket (boot tcp).udp = some 0 := rfl
      simp only [socket_claimed free, update_of_ne nonzero]
      rfl
  | succ count ih =>
    obtain ⟨s, run, only⟩ := ih (by omega)
    have other : BitVec.ofNat 16 (2 + count) ≠ 1 := by
      intro same
      have value : (2 + count) % 65536 = 1 := by simpa using congrArg BitVec.toNat same
      omega
    obtain ⟨s', more, only'⟩ := only.again other
    refine ⟨s', run.trans more, ?_⟩
    rw [← Nat.add_assoc, BitVec.ofNat_add]
    exact only'

/-- The counter comes to 0, and the call that draws it reports success and opens nothing; then it comes to 1, and
two sockets are open with this id. -/
theorem counter_wraps :
    (∃ s, ReflTransGen Step (boot emptyTables) s ∧ (socket s .udp 0).1 = ⟨.udp, 0⟩ ∧ ¬s.Claims 0) ∧
      ∃ s, ReflTransGen Step (boot emptyTables) s ∧ (s.udp 0).id = 1 ∧ (s.udp 1).id = 1 := by
  constructor
  · obtain ⟨s, run, only⟩ := FirstOnly.many emptyTables 65534 (by decide)
    refine ⟨s, run, ?_, ?_⟩
    · rw [socket_claimed only.free, only.next]
      rfl
    · intro claims
      exact (claims.fresh (by rw [only.free]; rfl)).1 only.next
  · obtain ⟨s, run, only⟩ := FirstOnly.many emptyTables 65535 (by decide)
    refine ⟨_, run.tail (.opened 0), ?_⟩
    rw [socket_claimed only.free, only.next]
    exact ⟨only.first, rfl⟩

/-- After the first socket is opened the second one is claimed. -/
theorem second_socket_claimed :
    ReflTransGen FreshStep (boot emptyTables) (socket (boot emptyTables) .udp 0).2 ∧
      DistinctIds (socket (boot emptyTables) .udp 0).2.udp ∧ (socket (boot emptyTables) .udp 0).2.Claims 0 := by
  have run : ReflTransGen FreshStep (boot emptyTables) (socket (boot emptyTables) .udp 0).2 :=
    .single (.opened 0 fun _ => ⟨by decide, by decide⟩)
  obtain ⟨distinct, claims⟩ := claims_iff_fresh run
  refine ⟨run, distinct, (claims 0).mpr fun _ => ⟨by decide, ?_⟩⟩
  decide

end Sockets

end Xos.Net
