import Xos.Net.Tcp

/-!
# UDP and the sockets over it (`udp.c`, `socket.c`)

The table of UDP sockets, each with its queue of datagrams, and the functions of `socket.c` that hand out
ids and that sort what comes in. Memory that a pointer leads to is a function from the offset. A task that
is made ready is the result of the call that does it, with 0 for none. Log lines are left out.
-/
namespace Xos.Net

open Function

/-- `memcpy8` of these bytes to the front. -/
def memcpy8 (dst : Nat → Byte) (bytes : List Byte) : Nat → Byte := fun i => bytes.getD i (dst i)

def socketQueueSize : Nat := 8

def ipMaxPacketSize : Nat := 1500

structure SocketPacket where
  len : BitVec 16
  data : Nat → Byte

structure SocketQueue where
  packets : Nat → SocketPacket
  head : Nat
  tail : Nat

def socketQueueWrite (queue : SocketQueue) (data : Nat → Byte) (len : BitVec 16) : Outcome (Int × SocketQueue) :=
  -- one slot stays empty, to tell a full queue from an empty one
  if (queue.head + 1) % socketQueueSize = queue.tail then pure (0, queue)
  -- the copy runs over the end of the slot
  else if ipMaxPacketSize < len.toNat then throw (.outOfBounds ipMaxPacketSize)
  else
    let packet := queue.packets queue.head
    let packet := { len := len, data := memcpy8 packet.data (bytesFrom data 0 len.toNat) }
    pure (1, { queue with
      packets := update queue.packets queue.head packet
      head := (queue.head + 1) % socketQueueSize })

/-- `socket_queue_read`, with what it returns and the bytes that it copies. -/
def socketQueueRead (queue : SocketQueue) (maxLen : BitVec 16) : Int × List Byte × SocketQueue :=
  if queue.head = queue.tail then (0, [], queue)
  else
    let packet := queue.packets queue.tail
    let copyLen := if maxLen < packet.len then maxLen else packet.len
    -- the return value is 1 and not `copyLen`
    (1, bytesFrom packet.data 0 copyLen.toNat, { queue with tail := (queue.tail + 1) % socketQueueSize })

def udpMaxSockets : Nat := 16

def udpPortDns : BitVec 16 := 53

inductive UdpError where
  | ok
  | portReserved
  | portUsed
  | socketLimitExceeded
  | socketNotFound
  deriving DecidableEq, Repr

/-- `udp_socket`, with 0 for a null `receiver`. -/
structure UdpSocket where
  id : BitVec 16
  remotePort : BitVec 16
  localPort : BitVec 16
  remoteAddr : Ipv4Addr
  localAddr : Ipv4Addr
  nicId : Int
  isListenting : Bool
  receiver : Nat
  packets : SocketQueue

/-- `s_sockets`. -/
abbrev Udp := Nat → UdpSocket

def udpInit : Udp := fun _ => ⟨0, 0, 0, 0, 0, 0, false, 0, ⟨fun _ => ⟨0, fun _ => 0⟩, 0, 0⟩⟩

def isReserved (port : BitVec 16) : Bool := [udpPortDns].any fun reserved => decide (reserved = port)

def isPortUsed (u : Udp) (port : BitVec 16) : Bool :=
  (List.range udpMaxSockets).any fun i => decide ((u i).id ≠ 0 ∧ (u i).localPort = port)

/-- `get_socket_for_port`, with the index of the socket. -/
def getSocketForPort (u : Udp) (port : BitVec 16) : Option Nat :=
  (List.range udpMaxSockets).find? fun i => decide ((u i).id ≠ 0 ∧ (u i).localPort = port)

def findFreeSocket (u : Udp) : Option Nat := (List.range udpMaxSockets).find? fun i => decide ((u i).id = 0)

/-- `get_socket`. The id 0 is that of the first free socket. -/
def getSocket (u : Udp) (id : BitVec 16) : Option Nat := (List.range udpMaxSockets).find? fun i => decide ((u i).id = id)

/-- `udp_create_socket`. The queue of the socket is left as it was. -/
def udpCreateSocket (u : Udp) (id : BitVec 16) : UdpError × Udp :=
  match findFreeSocket u with
  | none => (.socketLimitExceeded, u)
  | some i =>
    (.ok, update u i { u i with
      id := id
      localPort := 0
      remotePort := 0
      remoteAddr := ipv4 0 0 0 0
      localAddr := ipv4 0 0 0 0
      isListenting := false
      nicId := 0
      receiver := 0 })

def onSocket (u : Udp) (id : BitVec 16) (change : UdpSocket → UdpSocket) : UdpError × Udp :=
  match getSocket u id with
  | none => (.socketNotFound, u)
  | some i => (.ok, update u i (change (u i)))

def udpBindSocket (u : Udp) (id : BitVec 16) (addr : Ipv4Addr) (port : BitVec 16) : UdpError × Udp :=
  match getSocket u id with
  | none => (.socketNotFound, u)
  | some i =>
    if isReserved port then (.portReserved, u)
    else if isPortUsed u port then (.portUsed, u)
    else (.ok, update u i { u i with localPort := port, localAddr := addr })

def udpBindNic (u : Udp) (id : BitVec 16) (nicId : Int) : UdpError × Udp := onSocket u id fun s => { s with nicId := nicId }

def udpListenSocket (u : Udp) (id : BitVec 16) : UdpError × Udp := onSocket u id fun s => { s with isListenting := true }

def udpCloseSocket (u : Udp) (id : BitVec 16) : Udp :=
  match getSocket u id with
  | none => u
  -- all else is kept, the queue and the port included
  | some i => update u i { u i with id := 0 }

def udpConnect (u : Udp) (id : BitVec 16) (addr : Ipv4Addr) (port : BitVec 16) : UdpError × Udp :=
  onSocket u id fun s => { s with isListenting := true, remotePort := port, remoteAddr := addr }

def udpSetReceiver (u : Udp) (id : BitVec 16) (t : Nat) : Bool × Udp :=
  match getSocket u id with
  | none => (false, u)
  -- a task that waits already is not replaced
  | some i => if (u i).receiver ≠ 0 then (false, u) else (true, update u i { u i with receiver := t })

def protocolUdp : Byte := 17

structure UdpHeader where
  srcPort : BitVec 16
  dstPort : BitVec 16
  length : BitVec 16
  checksum : BitVec 16
  deriving DecidableEq, Repr

def UdpHeader.bytes (h : UdpHeader) : List Byte :=
  ushortBytes h.srcPort ++ ushortBytes h.dstPort ++ ushortBytes h.length ++ ushortBytes h.checksum

/-- A datagram given to `ip_send`. `total_len` is a `ushort`: a datagram that is longer is copied past the end of its
memory. -/
def sendDatagram (net : Stack) (dst : Ipv4Addr) (srcPort dstPort : BitVec 16) (payload : List Byte) (payloadLen : BitVec 16)
    (opts : IpSendOpts) : Outcome (Stack × Option Sent) :=
  let totalLen : BitVec 16 := 8 + payloadLen
  let header : UdpHeader := ⟨htons srcPort, htons dstPort, htons totalLen, 0⟩
  if totalLen.toNat < 8 + payloadLen.toNat then throw (.outOfBounds totalLen.toNat)
  else ipSend net dst protocolUdp (header.bytes ++ payload.take payloadLen.toNat) totalLen opts

def udpSend (net : Stack) (u : Udp) (id : BitVec 16) (payload : List Byte) (payloadLen : BitVec 16) :
    Outcome (Int × Stack × Option Sent) :=
  match getSocket u id with
  | none => pure (0, net, none)
  | some i => do
    let s := u i
    let (net, sent) ← sendDatagram net s.remoteAddr s.localPort s.remotePort payload payloadLen ⟨s.localAddr, s.nicId⟩
    pure (payloadLen.toNat, net, sent)

/-- `udp_receive`, with what it returns and the bytes that it copies. -/
def udpReceive (u : Udp) (id : BitVec 16) (dataLen : BitVec 16) : Int × List Byte × Udp :=
  match getSocket u id with
  | none => (0, [], u)
  | some i =>
    let (result, bytes, packets) := socketQueueRead (u i).packets dataLen
    (result, bytes, update u i { u i with packets := packets })

def udpOnData (u : Udp) (data : Nat → Byte) (dataLen : BitVec 16) : Outcome (Udp × Nat) :=
  if dataLen.toNat < 8 then pure (u, 0)
  else
    let dstPort := htons (data 3 ++ data 2)
    let payloadLen := dataLen - 8
    match getSocketForPort u dstPort with
    | none => pure (u, 0)
    | some i =>
      if !(u i).isListenting then pure (u, 0)
      else do
        -- the task is made ready even when the datagram is dropped
        let (_, packets) ← socketQueueWrite (u i).packets (fun j => data (8 + j)) payloadLen
        pure (update u i { u i with packets := packets, receiver := 0 }, (u i).receiver)

inductive SocketProtocol where
  | raw
  | icmp
  | tcp
  | udp
  deriving DecidableEq, Repr

structure SocketHandle where
  protocol : SocketProtocol
  id : BitVec 16
  deriving DecidableEq, Repr

/-- The tables of TCP and UDP, and `g_next_socket_id`. -/
structure Sockets where
  tcp : Tcp
  udp : Udp
  nextSocketId : BitVec 16

/-- `socket`. The body of `tcp_socket` is empty, so what it returns is an argument. -/
def socket (s : Sockets) (protocol : SocketProtocol) (tcpSocket : Int) : SocketHandle × Sockets :=
  let id := s.nextSocketId
  let s := { s with nextSocketId := s.nextSocketId + 1 }
  match protocol with
  | .raw | .icmp => (⟨protocol, id⟩, s)
  | .tcp => (if tcpSocket ≠ 0 then ⟨.raw, 0⟩ else ⟨protocol, id⟩, s)
  | .udp =>
    let (err, udp) := udpCreateSocket s.udp id
    (if err ≠ .ok then ⟨.raw, 0⟩ else ⟨protocol, id⟩, { s with udp := udp })

def socketClose (s : Sockets) (handle : SocketHandle) : Outcome (Sockets × Emitted) :=
  match handle.protocol with
  | .raw | .icmp => throw (.panic "not implemented!")
  | .tcp => do
    let (_, tcp, emitted) ← tcpTerminateConnection s.tcp (handle.id.setWidth 32)
    pure ({ s with tcp := tcp }, emitted)
  | .udp => pure ({ s with udp := udpCloseSocket s.udp handle.id }, [])

/-- What `socket_on_data` does: the tables, what is emitted, and the task that is made ready. -/
structure Sorted where
  sockets : Sockets
  emitted : Emitted
  woken : Nat

/-- `socket_on_data`. The numbers that `tcp_on_data` draws are arguments. -/
def socketOnData (s : Sockets) (data : Nat → Byte) (dataLen randId : BitVec 16) (randSeq : BitVec 32) : Outcome Sorted :=
  if dataLen.toNat < 20 then pure ⟨s, [], 0⟩
  else
    let ipTotal := htons (data 3 ++ data 2)
    if ipTotal.toNat < 20 ∨ dataLen < ipTotal then pure ⟨s, [], 0⟩
    else
      -- the header is taken to have 20 bytes, whatever its `ihl` says
      let payload := fun i => data (20 + i)
      let payloadLen := ipTotal - 20
      let protocol := data 9
      if protocol = protocolTcp then do
        let received ← tcpOnData s.tcp (data 15 ++ data 14 ++ data 13 ++ data 12) payload payloadLen randId randSeq
        pure ⟨{ s with tcp := received.tcp }, received.emitted, 0⟩
      else if protocol = protocolUdp then do
        let (udp, woken) ← udpOnData s.udp payload payloadLen
        pure ⟨{ s with udp := udp }, [], woken⟩
      else pure ⟨s, [], 0⟩

def ipReceive (s : Sockets) (data : Nat → Byte) (dataLen randId : BitVec 16) (randSeq : BitVec 32) : Outcome Sorted :=
  if dataLen.toNat < 20 then pure ⟨s, [], 0⟩ else socketOnData s data dataLen randId randSeq

end Xos.Net
