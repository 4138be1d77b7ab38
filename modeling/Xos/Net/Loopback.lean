import Xos.Lib.Pool
import Xos.Net.Datagrams
import Xos.Net.SocketIds
import Xos.Net.UdpQueues

/-!
# The loopback card (`drivers/loopback.c`)

`loopback_poll` hands a packet on with the length in its frame. That length is never written: it is what the stack held
when the packet was sent.
-/
namespace Xos.Net

open Lib Relation

def frameSize : Nat := 1022

def bufferLen : Nat := 32

/-- The memory of a `loopback_frame`: `data`, and then the two bytes of `len`. -/
abbrev LoopbackFrame := Nat → Byte

def LoopbackFrame.len (frame : LoopbackFrame) : BitVec 16 := frame (frameSize + 1) ++ frame frameSize

abbrev LoopbackBuffer := RingBuf LoopbackFrame

def loopbackBufferWrite (q : LoopbackBuffer) (item : LoopbackFrame) : LoopbackBuffer :=
  -- a frame for which there is no room is dropped
  (q.write bufferLen item).2

def loopbackBufferRead (q : LoopbackBuffer) : Option (LoopbackFrame × LoopbackBuffer) := q.next bufferLen

/-- `loopback_send`, where `stack` is what the memory of `frame` holds at first. A packet that is longer than a
`loopback_frame` is copied past its end. -/
def loopbackSend (q : LoopbackBuffer) (data : List Byte) (len : BitVec 16) (stack : Nat → Byte) : Outcome LoopbackBuffer :=
  if frameSize + 2 < len.toNat then throw (.outOfBounds (frameSize + 2))
  else pure (loopbackBufferWrite q (memcpy8 stack (data.take len.toNat)))

def frameOn (stack : Nat → Byte) (frame : LoopbackFrame) : Nat → Byte := fun i => if i < frameSize + 2 then frame i else stack i

/-- `loopback_poll`, where `stack` is the memory that `out` is in. -/
def loopbackPoll (q : LoopbackBuffer) (s : Sockets) (stack : Nat → Byte) (randId : BitVec 16) (randSeq : BitVec 32) :
    Outcome (LoopbackBuffer × Sorted) :=
  match loopbackBufferRead q with
  | none => pure (q, ⟨s, [], 0⟩)
  | some (out, q) => do
    -- `out.len` is what `loopback_send` left in the frame
    let sorted ← ipReceive s (frameOn stack out) out.len randId randSeq
    pure (q, sorted)

namespace LoopbackBuffer

def frames (q : LoopbackBuffer) : List LoopbackFrame := RingBuf.held bufferLen q

def Valid (q : LoopbackBuffer) : Prop := RingBuf.Valid bufferLen q

variable {q : LoopbackBuffer}

theorem Valid.write (valid : q.Valid) (item : LoopbackFrame) : (loopbackBufferWrite q item).Valid ∧
      (loopbackBufferWrite q item).frames = if (q.head + 1) % bufferLen = q.tail then q.frames else q.frames ++ [item] :=
  RingBuf.Valid.write valid item

theorem Valid.read (valid : q.Valid) {first : LoopbackFrame} {rest : List LoopbackFrame} (frames : q.frames = first :: rest) :
    ∃ q', loopbackBufferRead q = some (first, q') ∧ q'.Valid ∧ q'.frames = rest :=
  RingBuf.Valid.next_cons valid frames

end LoopbackBuffer

structure Looping where
  buffer : LoopbackBuffer
  sockets : Sockets
  ahead : Nat

variable {stack : Nat → Byte}

namespace Looping

/-- Anything is sent, a frame that is ahead is picked up, or something else happens to the sockets. -/
inductive Step (l : Looping) : Looping → Prop
  | sent {data len stack buffer} : loopbackSend l.buffer data len stack = .ok buffer → Step l { l with buffer := buffer }
  | polled {stack randId randSeq buffer sorted ahead} : loopbackPoll l.buffer l.sockets stack randId randSeq = .ok (buffer, sorted) →
      l.ahead = ahead + 1 → Step l ⟨buffer, sorted.sockets, ahead⟩
  | other (sockets : Sockets) : Step l { l with sockets := sockets }

def Holds (frame : LoopbackFrame) (l : Looping) : Prop := l.buffer.Valid ∧ l.buffer.frames[l.ahead]? = some frame

variable {frame : LoopbackFrame} {l l' : Looping}

theorem Holds.sent {data : List Byte} {len : BitVec 16} {buffer : LoopbackBuffer} (holds : Holds frame l)
    (sent : loopbackSend l.buffer data len stack = .ok buffer) : Holds frame { l with buffer := buffer } := by
  obtain ⟨valid, place⟩ := holds
  rw [loopbackSend] at sent
  split at sent
  next => cases sent
  next =>
    cases sent
    obtain ⟨valid', frames⟩ := valid.write (memcpy8 stack (data.take len.toNat))
    refine ⟨valid', ?_⟩
    simp only [frames]
    split
    next => exact place
    next => rw [List.getElem?_append_left (List.getElem?_eq_some_iff.mp place).1, place]

theorem Holds.polled {randId : BitVec 16} {randSeq : BitVec 32} {buffer : LoopbackBuffer} {sorted : Sorted} {ahead : Nat}
    (holds : Holds frame l) (polled : loopbackPoll l.buffer l.sockets stack randId randSeq = .ok (buffer, sorted))
    (behind : l.ahead = ahead + 1) : Holds frame ⟨buffer, sorted.sockets, ahead⟩ := by
  obtain ⟨valid, place⟩ := holds
  rw [behind] at place
  cases frames : l.buffer.frames with
  | nil =>
    rw [frames] at place
    cases place
  | cons first rest =>
    obtain ⟨buffer', read, valid', frames'⟩ := valid.read frames
    rw [loopbackPoll, read] at polled
    obtain ⟨_, -, same⟩ := Outcome.of_bind polled
    cases same
    rw [frames] at place
    exact ⟨valid', by rw [frames']; exact place⟩

theorem Step.holds (holds : Holds frame l) (step : Step l l') : Holds frame l' := by
  cases step with
  | sent sent => exact holds.sent sent
  | polled polled behind => exact holds.polled polled behind
  | other => exact holds

end Looping

def LaidOut (data : Nat → Byte) (packet : List Byte) : Prop := ∀ i < packet.length, data i = packet.getD i 0

namespace CarriesUdp

variable {data : Nat → Byte} {packet payload : List Byte} {srcPort dstPort : BitVec 16}

theorem ushort_of_memory (laid : LaidOut data packet) {i : Nat} (inside : i + 1 < packet.length) :
    data (i + 1) ++ data i = ushortAt packet i := by
  rw [laid i (by omega), laid (i + 1) inside]
  rfl

section

variable (carries : CarriesUdp packet srcPort dstPort payload) (laid : LaidOut data packet)
include carries laid

theorem payloadOf_memory :
    payloadOf (fun i => data (20 + i)) (BitVec.ofNat 16 (28 + payload.length) - 20) = payload := by
  have short := carries.short
  have count : (BitVec.ofNat 16 (28 + payload.length) - 20 - 8).toNat = payload.length := by
    simp only [BitVec.toNat_sub, BitVec.toNat_ofNat, BitVec.reduceToNat]
    omega
  rw [payloadOf, count]
  apply List.ext_getElem length_bytesFrom
  intro j inside inside'
  have here := laid (28 + j) (by rw [carries.length_packet]; omega)
  have dropped : (packet.drop 28)[j]? = payload[j]? := by rw [carries.drop_headers]
  simp only [bytesFrom, List.getElem_map, List.getElem_range, Nat.zero_add]
  rw [show 20 + (8 + j) = 28 + j by omega, here, List.getD_eq_getElem?_getD, ← List.getElem?_drop, dropped,
    List.getElem?_eq_getElem inside', Option.getD_some]

/-- A packet that is cut short is dropped, and any other goes to `udp_on_data`. -/
theorem ipReceive_eq (s : Sockets) (dataLen randId : BitVec 16)
    (randSeq : BitVec 32) : ipReceive s data dataLen randId randSeq =
      if dataLen.toNat < 28 + payload.length then pure ⟨s, [], 0⟩
      else udpOnData s.udp (fun i => data (20 + i)) (BitVec.ofNat 16 (28 + payload.length) - 20) >>= fun received =>
        pure ⟨{ s with udp := received.1 }, [], received.2⟩ := by
  have length := carries.length_packet
  have total : htons (data 3 ++ data 2) = BitVec.ofNat 16 (28 + payload.length) := by
    apply BitVec.eq_of_toNat_eq
    rw [ushort_of_memory laid (by omega), carries.total, BitVec.toNat_ofNat, Nat.mod_eq_of_lt carries.short]
  have value : (BitVec.ofNat 16 (28 + payload.length)).toNat = 28 + payload.length := by
    rw [BitVec.toNat_ofNat, Nat.mod_eq_of_lt carries.short]
  have protocol : data 9 = protocolUdp := by rw [laid 9 (by omega), carries.protocol]
  simp only [ipReceive, socketOnData, total, BitVec.lt_def, value, protocol]
  by_cases cut : dataLen.toNat < 28 + payload.length
  · rw [if_pos cut]
    split
    next => rfl
    next => rw [if_pos (.inr cut)]
  · rw [if_neg cut, if_neg (by omega), if_neg (by omega), if_neg (by omega), if_neg (by decide), if_pos trivial]

end

end CarriesUdp

structure Ready (u : Udp) (k : Nat) (port : BitVec 16) : Prop where
  inside : k < udpMaxSockets
  opened : (u k).id ≠ 0
  listening : (u k).isListenting = true
  bound : (u k).localPort = port
  nonzero : port ≠ 0
  owned : PortsOwned u
  valid : (u k).packets.Valid
  room : (u k).packets.contents.length < 7

theorem Ready.delivers {u : Udp} {k : Nat} {data : Nat → Byte} {dataLen : BitVec 16} (ready : Ready u k (destination data))
    (header : 8 ≤ dataLen.toNat) (fits : (dataLen - 8).toNat ≤ 1500) :
    ∃ u' woken, udpOnData u data dataLen = .ok (u', woken) ∧ (u' k).packets.contents =
      (u k).packets.contents ++ [payloadOf data dataLen] := by
  have found : getSocketForPort u (destination data) = some k := by
    have some : (getSocketForPort u (destination data)).isSome := by
      rw [getSocketForPort, List.find?_isSome]
      exact ⟨k, List.mem_range.mpr ready.inside, decide_eq_true ⟨ready.opened, ready.bound⟩⟩
    obtain ⟨j, at_j⟩ := Option.isSome_iff_exists.mp some
    obtain ⟨inside, opened, bound⟩ := getSocketForPort_some at_j
    rw [at_j, ready.owned.own j inside k ready.inside opened ready.opened (bound ▸ ready.nonzero) (bound.trans ready.bound.symm)]
  have target : listener u data dataLen = some k := by
    rw [listener, if_neg (by omega), found]
    simp [Option.filter, ready.listening]
  obtain ⟨u', woken, ret⟩ := udpOnData_isOk.mpr (show FitsSlot u data dataLen from fun _ _ _ => fits)
  have ran : (UdpCall.datagram data dataLen).run u = .ok u' := Outcome.bind_eq_ok.mpr ⟨_, ret, rfl⟩
  refine ⟨u', woken, ret, ?_⟩
  rw [(contents_run ready.valid ran).2, if_pos (show (UdpCall.datagram data dataLen).target u = some k from target), UdpCall.queued,
    enqueue, if_pos ready.room]

namespace Looping

/-- The next `loopback_poll` puts the payload into the queue of a socket. -/
def Delivers (l : Looping) (k : Nat) (payload : List Byte) : Prop :=
  ∀ stack randId randSeq, ∃ buffer sorted, loopbackPoll l.buffer l.sockets stack randId randSeq = .ok (buffer, sorted) ∧
    (sorted.sockets.udp k).packets.contents = (l.sockets.udp k).packets.contents ++ [payload]

variable {packet : List Byte}

theorem len_memcpy8 (stack : Nat → Byte) (short : packet.length ≤ 1022) :
    LoopbackFrame.len (memcpy8 stack packet) = LoopbackFrame.len stack := by
  simp only [LoopbackFrame.len, memcpy8, frameSize]
  rw [List.getD_eq_default _ _ (by omega), List.getD_eq_default _ _ (by omega)]

theorem laidOut_frameOn (memory stack : Nat → Byte) (short : packet.length ≤ 1022) :
    LaidOut (frameOn memory (memcpy8 stack packet)) packet := by
  intro i inside
  rw [frameOn, if_pos (by simp only [frameSize]; omega), memcpy8, List.getD_eq_getElem _ _ inside, List.getD_eq_getElem _ _ inside]

theorem delivers_iff {l : Looping} {k : Nat} {payload : List Byte} {srcPort dstPort : BitVec 16}
    (carries : CarriesUdp packet srcPort dstPort payload) (short : payload.length ≤ 994) (holds : Holds (memcpy8 stack packet) l)
    (next : l.ahead = 0) (ready : Ready l.sockets.udp k dstPort) :
    l.Delivers k payload ↔ 28 + payload.length ≤ (LoopbackFrame.len stack).toNat := by
  have length := carries.length_packet
  obtain ⟨valid, place⟩ := holds
  rw [next] at place
  cases frames : l.buffer.frames with
  | nil =>
    rw [frames] at place
    cases place
  | cons first rest =>
    rw [frames] at place
    cases place
    obtain ⟨buffer, read, -, -⟩ := valid.read frames
    have poll (memory : Nat → Byte) (randId : BitVec 16) (randSeq : BitVec 32) :
        loopbackPoll l.buffer l.sockets memory randId randSeq =
          ipReceive l.sockets (frameOn memory (memcpy8 stack packet)) (LoopbackFrame.len stack) randId randSeq >>= fun sorted =>
            pure (buffer, sorted) := by
      rw [loopbackPoll, read]
      simp only [len_memcpy8 stack (show packet.length ≤ 1022 by omega)]
    have laid (memory : Nat → Byte) := laidOut_frameOn memory stack (show packet.length ≤ 1022 by omega)
    constructor
    · intro delivers
      by_contra cut
      obtain ⟨_, _, polled, contents⟩ := delivers stack 0 0
      rw [poll, carries.ipReceive_eq (laid stack), if_pos (by omega)] at polled
      cases polled
      -- nothing came in
      have same := congrArg List.length contents
      simp at same
    · intro fits memory randId randSeq
      have port : destination (fun i => frameOn memory (memcpy8 stack packet) (20 + i)) = dstPort := by
        have word := CarriesUdp.ushort_of_memory (laid memory) (show 22 + 1 < packet.length by omega)
        exact (congrArg htons word).trans carries.destination
      have value : (BitVec.ofNat 16 (28 + payload.length) - 20).toNat = 8 + payload.length := by
        simp only [BitVec.toNat_sub, BitVec.toNat_ofNat, BitVec.reduceToNat]
        omega
      have slot : (BitVec.ofNat 16 (28 + payload.length) - 20 - 8).toNat ≤ 1500 := by
        simp only [BitVec.toNat_sub, BitVec.toNat_ofNat, BitVec.reduceToNat]
        omega
      obtain ⟨u', woken, ret, contents⟩ := (port ▸ ready).delivers (by rw [value]; omega) slot
      refine ⟨buffer, ⟨{ l.sockets with udp := u' }, [], woken⟩, ?_, ?_⟩
      · rw [poll, carries.ipReceive_eq (laid memory), if_neg (by omega), ret]
        rfl
      · rw [contents, carries.payloadOf_memory (laid memory)]

theorem loopbackSend_short (q : LoopbackBuffer) (short : packet.length ≤ 1022) (stack : Nat → Byte) :
    ∃ q', loopbackSend q packet (BitVec.ofNat 16 packet.length) stack = .ok q' := by
  rw [loopbackSend, BitVec.toNat_ofNat, Nat.mod_eq_of_lt (by omega)]
  exact ⟨_, if_neg (by simp only [frameSize]; omega)⟩

theorem Holds.of_send {q q' : LoopbackBuffer} (valid : q.Valid)
    (room : (q.head + 1) % bufferLen ≠ q.tail) (short : packet.length < 2 ^ 16)
    (written : loopbackSend q packet (BitVec.ofNat 16 packet.length) stack = .ok q') (s : Sockets) :
    Holds (memcpy8 stack packet) ⟨q', s, q.frames.length⟩ := by
  have whole : (BitVec.ofNat 16 packet.length).toNat = packet.length := by
    rw [BitVec.toNat_ofNat, Nat.mod_eq_of_lt short]
  rw [loopbackSend, whole, List.take_length] at written
  split at written
  next => cases written
  next =>
    cases written
    obtain ⟨valid', frames⟩ := valid.write (memcpy8 stack packet)
    rw [if_neg room] at frames
    exact ⟨valid', by rw [frames]; simp⟩

/-- A datagram of at most 994 bytes that is sent into a buffer with room is delivered, when the frames ahead of it have
been picked up and a socket is ready for it, just when the length that the stack held is not less than its own. -/
theorem loopback_trip_iff {net net' : Stack} {u : Udp} {id len : BitVec 16} {payload : List Byte}
    {result : Int} {sent : Sent} {i k : Nat}
    {q q' : LoopbackBuffer} {stack : Nat → Byte} {s₀ : Sockets} {l : Looping} (length : payload.length = len.toNat)
    (short : len.toNat ≤ 994) (sender : getSocket u id = some i)
      (handed : udpSend net u id payload len = .ok (result, net', some sent))
    (valid : q.Valid) (room : (q.head + 1) % bufferLen ≠ q.tail)
    (written : loopbackSend q sent.packet (BitVec.ofNat 16 sent.packet.length) stack = .ok q')
    (run : ReflTransGen Step ⟨q', s₀, q.frames.length⟩ l) (next : l.ahead = 0) (ready : Ready l.sockets.udp k (u i).remotePort) :
    l.Delivers k payload ↔ 28 + payload.length ≤ (LoopbackFrame.len stack).toNat := by
  obtain ⟨j, found, carries⟩ := udpSend_sent length handed
  cases sender.symm.trans found
  have start := Holds.of_send valid room (by rw [carries.length_packet]; exact carries.short) written s₀
  exact delivers_iff carries (by omega) (invariant_of_run (Holds _) (fun _ _ holds step => step.holds holds) run start) next ready

/-- A socket that sends to port 1000 over the loopback card, and one that listens there. -/
def loopUdp : Udp :=
  let sender := (udpConnect (udpBindNic (udpCreateSocket udpInit 1).2 1 777).2 1 (ipv4 127 0 0 1) 1000).2
  (udpListenSocket (udpBindSocket (udpCreateSocket sender 2).2 2 0 1000).2 2).2

theorem loopUdp_ready : Ready loopUdp 1 1000 where
  inside := by decide
  opened := by decide
  listening := rfl
  bound := rfl
  nonzero := by decide
  owned := by
    have ran : UdpCall.runAll udpInit [.create 1, .bindNic 1 777, .connect 1 (ipv4 127 0 0 1) 1000, .create 2, .bind 2 0 1000, .listen 2] =
      .ok loopUdp := rfl
    exact .runAll ran
  valid := ⟨by decide, by decide⟩
  room := by decide

theorem loopUdp_sends : ∃ res net' sent, udpSend (oneCard (ipv4 10 0 0 5)) loopUdp 1 [104, 105] 2 = .ok (res, net', some sent) ∧
    sent.driver = .loopback := by
  have found : getSocket loopUdp 1 = some 0 := rfl
  have chosen : chooseNic (oneCard (ipv4 10 0 0 5)) (loopUdp 0).remoteAddr ⟨(loopUdp 0).localAddr, (loopUdp 0).nicId⟩ =
    .ok (some 0, ⟨ipv4 127 0 0 0, ipv4 255 0 0 0, 0, 777, 10⟩) := by decide +kernel
  have card : (oneCard (ipv4 10 0 0 5)).nicAt 0 = .ok ⟨777, ipv4 127 0 0 1, some .loopback⟩ := rfl
  exact udpSend_routed found chosen (by decide) card rfl [104, 105] (by decide)

def loopSockets : Sockets := { Sockets.boot emptyTables with udp := loopUdp }

def emptyBuffer : LoopbackBuffer := ⟨fun _ _ => 0, 0, 0⟩

/-- When the stack held zeros, the datagram is dropped. -/
theorem unwritten_length_drops :
    ∃ result net' sent q', udpSend (oneCard (ipv4 10 0 0 5)) loopUdp 1 [104, 105] 2 = .ok (result, net', some sent) ∧
      sent.driver = .loopback ∧ loopbackSend emptyBuffer sent.packet (BitVec.ofNat 16 sent.packet.length) (fun _ => 0) = .ok q' ∧
      Ready loopUdp 1 1000 ∧ ¬Delivers ⟨q', loopSockets, 0⟩ 1 [104, 105] := by
  obtain ⟨result, net', sent, handed, looped⟩ := loopUdp_sends
  obtain ⟨i, found, carries⟩ := udpSend_sent rfl handed
  cases (show getSocket loopUdp 1 = some 0 from rfl).symm.trans found
  have length : sent.packet.length = 30 := carries.length_packet
  obtain ⟨q', written⟩ := loopbackSend_short emptyBuffer (show sent.packet.length ≤ 1022 by omega) fun _ => 0
  have holds : Holds _ ⟨q', loopSockets, 0⟩ := Holds.of_send ⟨by decide, by decide⟩ (by decide) (by omega) written loopSockets
  refine ⟨result, net', sent, q', handed, looped, written, loopUdp_ready, ?_⟩
  rw [delivers_iff carries (by decide) holds rfl loopUdp_ready]
  decide

/-- When it held a length that is not less, it is delivered. -/
theorem long_length_delivers :
    ∃ result net' sent q', udpSend (oneCard (ipv4 10 0 0 5)) loopUdp 1 [104, 105] 2 = .ok (result, net', some sent) ∧
      loopbackSend emptyBuffer sent.packet (BitVec.ofNat 16 sent.packet.length) (fun _ => 255) = .ok q' ∧
      Delivers ⟨q', loopSockets, 0⟩ 1 [104, 105] := by
  obtain ⟨result, net', sent, handed, -⟩ := loopUdp_sends
  obtain ⟨_, -, carries⟩ := udpSend_sent rfl handed
  have length : sent.packet.length = 30 := carries.length_packet
  obtain ⟨q', written⟩ := loopbackSend_short emptyBuffer (show sent.packet.length ≤ 1022 by omega) fun _ => 255
  have sender : getSocket loopUdp 1 = some 0 := rfl
  have run : ReflTransGen Step ⟨q', loopSockets, emptyBuffer.frames.length⟩ ⟨q', loopSockets, 0⟩ := .refl
  refine ⟨result, net', sent, q', handed, written, ?_⟩
  rw [loopback_trip_iff rfl (by decide) sender handed ⟨by decide, by decide⟩ (by decide) written run rfl loopUdp_ready]
  decide

end Looping

end Xos.Net
