import Mathlib.Logic.Function.Basic
import Xos.Net.Model
import Xos.Net.RingBuf

/-!
# TCP connections (`tcp.c`, `ring_buf.h`)

The table of connections and the table of listeners, and the calls that work on them. The numbers that
`rand16` and `rand32` draw are arguments. The bytes that a pointer leads to are a function of their
index, so that reading past a length is an index like any other. What is handed to the driver of a card
is listed with the index of its connection; log lines are left out.
-/
namespace Xos.Net

open Function

def tcpRst : Byte := 1 <<< 2

def tcpMaxListeners : Nat := 4

def tcpBacklogSize : Nat := 4

def recvBufSize : Nat := 4096

/-- `tcp_active_socket`, with all of its fields. -/
structure TcpConnection extends TcpActiveSocket where
  id : BitVec 16
  claimed : Bool
  initialSeq : BitVec 32
  recvBuf : Nat → Byte
  recvHead : BitVec 32
  recvTail : BitVec 32

/-- `RING_BUF(backlog, socket_id, TCP_BACKLOG_SIZE)`. -/
abbrev Backlog := RingBuf (BitVec 16)

namespace Backlog

def full (q : Backlog) : Bool := (q.head + 1) % tcpBacklogSize = q.tail

def write (q : Backlog) (item : BitVec 16) : Backlog :=
  -- without room nothing is written, and the callers do not look at the result
  (RingBuf.write tcpBacklogSize q item).2

def read (q : Backlog) : Option (BitVec 16 × Backlog) := RingBuf.next tcpBacklogSize q

end Backlog

structure TcpPassiveSocket where
  id : BitVec 16
  localPort : BitVec 16
  backlog : Backlog

inductive TcpError where
  | ok
  | portReserved
  | portUsed
  | socketLimitExceeded
  | noPortProvided
  | invalidId
  deriving DecidableEq, Repr

/-- What `ip_send` sees, `g_active_sockets`, `g_passive_sockets`, and the next port of `get_ephemeral_port`. -/
structure Tcp where
  nics : Nat → Nic
  routes : Nat → Option Route
  ipId : BitVec 16
  conns : Nat → TcpConnection
  listeners : Nat → TcpPassiveSocket
  port : BitVec 16

abbrev Emitted := List (Nat × Sent)

namespace Tcp

def setConn (t : Tcp) (i : Nat) (conn : TcpConnection) : Tcp := { t with conns := update t.conns i conn }

def setListener (t : Tcp) (l : Nat) (listener : TcpPassiveSocket) : Tcp :=
  { t with listeners := update t.listeners l listener }

def stack (t : Tcp) : Stack := ⟨t.nics, t.routes, t.ipId, fun i => (t.conns i).toTcpActiveSocket⟩

def withStack (t : Tcp) (net : Stack) : Tcp :=
  { t with ipId := net.ipId, conns := fun i => { t.conns i with toTcpActiveSocket := net.conns i } }

def sendHeader (t : Tcp) (i : Nat) (flags : Byte) : Outcome (Tcp × Emitted) := do
  let (net, sent) ← Net.sendHeader t.stack i flags
  pure (t.withStack net, sent.toList.map fun sent => (i, sent))

/-- `tcp_send_buffered_data`. -/
def sendBufferedData (t : Tcp) : Outcome (Tcp × Emitted) := do
  let (net, emitted) ← tcpSendBufferedData t.stack
  pure (t.withStack net, emitted)

def resolveConn (t : Tcp) (localAddr remoteAddr : Ipv4Addr) (localPort remotePort : BitVec 16) : Option Nat :=
  (List.range tcpMaxConnections).find? fun i =>
    decide ((t.conns i).claimed = true ∧ (t.conns i).localIp = localAddr ∧ (t.conns i).remoteIp = remoteAddr ∧
      (t.conns i).localPort = localPort ∧ (t.conns i).remotePort = remotePort)

def resolvePassive (t : Tcp) (localPort : BitVec 16) : Option Nat :=
  (List.range tcpMaxListeners).find? fun l => decide ((t.listeners l).id ≠ 0 ∧ (t.listeners l).localPort = localPort)

def getConn (t : Tcp) (connId : BitVec 32) : Option Nat :=
  -- `claimed` is not tested: 0 is the id of the connections that are not used
  (List.range tcpMaxConnections).find? fun i => decide ((t.conns i).id.setWidth 32 = connId)

def getPassive (t : Tcp) (id : BitVec 16) : Option Nat :=
  (List.range tcpMaxListeners).find? fun l => decide ((t.listeners l).id = id)

/-- `create_active`, with the index of the new connection. -/
def createActive (t : Tcp) (id : BitVec 16) (localAddr remoteAddr : Ipv4Addr)
    (localPort remotePort : BitVec 16) (random : BitVec 32) :
    Option (Nat × Tcp) :=
  ((List.range tcpMaxConnections).find? fun i => !(t.conns i).claimed).map fun i =>
    -- `memset8` comes first, so that what is not assigned after it is 0
    (i, t.setConn i {
      state := .closed
      localIp := localAddr
      remoteIp := remoteAddr
      localPort := localPort
      remotePort := remotePort
      seq := random
      ack := 0
      sendBuf := fun _ => 0
      sendHead := 0
      sendTail := 0
      id := id
      claimed := true
      initialSeq := random
      recvBuf := fun _ => 0
      recvHead := 0
      recvTail := 0 })

def createPassive (t : Tcp) (id localPort : BitVec 16) : Option (Nat × Tcp) :=
  ((List.range tcpMaxListeners).find? fun l => decide ((t.listeners l).id = 0)).map fun l =>
    (l, t.setListener l ⟨id, localPort, { (t.listeners l).backlog with head := 0, tail := 0 }⟩)

def isPortUsed (t : Tcp) (port : BitVec 16) : Bool :=
  ((List.range tcpMaxListeners).any fun l => decide ((t.listeners l).id ≠ 0 ∧ (t.listeners l).localPort = port)) ||
    (List.range tcpMaxConnections).any fun i => decide ((t.conns i).id ≠ 0 ∧ (t.conns i).localPort = port)

def getEphemeralPort (t : Tcp) : BitVec 16 × Tcp :=
  -- the counter is a `ushort` and goes around after 65535
  let port := if t.port = 0 then 49152 else t.port
  (port, { t with port := port + 1 })

end Tcp

def tcpActive (t : Tcp) (id : BitVec 16) (remoteAddr : Ipv4Addr) (remotePort localPort : BitVec 16) (random : BitVec 32) :
    Outcome (TcpError × Tcp × Emitted) :=
  if remotePort = 0 then pure (.noPortProvided, t, [])
  -- only a port that is asked for is looked up
  else if localPort ≠ 0 ∧ t.isPortUsed localPort then pure (.portUsed, t, [])
  else
    let (localPort, t) := if localPort = 0 then t.getEphemeralPort else (localPort, t)
    match t.createActive id 0 remoteAddr localPort remotePort random with
    | none => pure (.socketLimitExceeded, t, [])
    | some (i, t) => do
      let (t, emitted) ← (t.setConn i { t.conns i with state := .synSent }).sendHeader i tcpSyn
      pure (.ok, t, emitted)

def tcpPassive (t : Tcp) (id port : BitVec 16) : TcpError × Tcp :=
  if port = 0 then (.noPortProvided, t)
  else if t.isPortUsed port then (.portUsed, t)
  else
    match t.createPassive id port with
    | none => (.socketLimitExceeded, t)
    | some (_, t) => (.ok, t)

def tcpAccept (t : Tcp) (newId id : BitVec 16) : Bool × Tcp :=
  match t.getPassive id with
  | none => (false, t)
  | some l =>
    match (t.listeners l).backlog.read with
    | none => (false, t)
    | some (connId, backlog) =>
      -- from here on the entry is gone, also when no connection is found for it
      let t := t.setListener l { t.listeners l with backlog := backlog }
      if connId = 0 then (false, t)
      else
        match t.getConn (connId.setWidth 32) with
        | none => (false, t)
        | some i => (true, t.setConn i { t.conns i with id := newId })

def tcpTerminateConnection (t : Tcp) (connId : BitVec 32) : Outcome (Int × Tcp × Emitted) :=
  match t.getConn connId with
  | none => pure (0, t, [])
  | some i => do
    let (t, emitted) ← (t.setConn i { t.conns i with state := .finWait1 }).sendHeader i tcpFin
    pure (1, t, emitted)

/-- `tcp_header`, as it lies in memory. -/
def TcpHeader.ofMemory (data : Nat → Byte) : TcpHeader where
  srcPort := data 1 ++ data 0
  dstPort := data 3 ++ data 2
  seqNum := data 7 ++ data 6 ++ data 5 ++ data 4
  ackNum := data 11 ++ data 10 ++ data 9 ++ data 8
  dataOffset := data 12
  flags := data 13
  window := data 15 ++ data 14
  checksum := data 17 ++ data 16
  urgentPtr := data 19 ++ data 18

def bytesFrom (data : Nat → Byte) (first count : Nat) : List Byte := (List.range count).map fun i => data (first + i)

/-- `for (..) buf[head++ % sizeof(buf)] = ..`. -/
def ringWrite (size : Nat) : (Nat → Byte) → BitVec 32 → List Byte → Nat → Byte
  | buf, _, [] => buf
  | buf, head, b :: bytes => ringWrite size (update buf (head.toNat % size) b) (head + 1) bytes

namespace TcpConnection

/-- What `TCP_RST`, and the last acknowledgement, do to a connection. -/
def close (conn : TcpConnection) : TcpConnection := { conn with state := .closed, claimed := false, id := 0 }

/-- The acknowledgement numbers, before the `switch` of `tcp_on_data`. -/
def acknowledge (conn : TcpConnection) (header : TcpHeader) (payloadLen : BitVec 16) : TcpConnection :=
  -- in SYN_SENT their first number has not been seen yet
  let ack := if conn.state = .synSent then htonl header.seqNum else conn.ack
  let ack := if header.flags &&& (tcpSyn ||| tcpFin) ≠ 0 then ack + 1 else ack
  let ackedOffset := htonl header.ackNum - conn.initialSeq - 1
  { conn with
    ack := ack + payloadLen.setWidth 32
    sendTail := if conn.sendTail < ackedOffset then ackedOffset else conn.sendTail }

/-- The copy into `recv_buf`. -/
def store (conn : TcpConnection) (bytes : List Byte) : TcpConnection :=
  { conn with
    recvBuf := ringWrite recvBufSize conn.recvBuf conn.recvHead bytes
    recvHead := conn.recvHead + BitVec.ofNat 32 bytes.length }

end TcpConnection

def tcpOnIncoming (t : Tcp) (src : Ipv4Addr) (header : TcpHeader) (randId : BitVec 16)
    (randSeq : BitVec 32) : Outcome (Tcp × Emitted) :=
  let dstPort := htons header.dstPort
  match t.resolvePassive dstPort with
  | none => pure (t, [])
  | some l =>
    -- the entry is written later, when the connection becomes established
    if (t.listeners l).backlog.full then pure (t, [])
    else if header.flags ≠ tcpSyn then pure (t, [])
    else
      match t.createActive randId 0 src dstPort (htons header.srcPort) randSeq with
      | none => pure (t, [])
      | some (i, t) =>
        (t.setConn i { t.conns i with state := .synReceived, ack := htonl header.seqNum + 1 }).sendHeader i (tcpSyn ||| tcpAck)

def tcpOnPayload (t : Tcp) (i : Nat) (payload : List Byte) : Outcome (Tcp × Emitted) :=
  if payload ≠ [] then (t.setConn i ((t.conns i).store payload)).sendHeader i tcpAck else pure (t, [])

/-- `if (header->flags & TCP_FIN)`, with the state that follows and the answer. -/
def tcpOnFin (t : Tcp) (i : Nat) (header : TcpHeader) (state : TcpState) (answer : Byte) : Outcome (Tcp × Emitted) :=
  if header.flags &&& tcpFin ≠ 0 then (t.setConn i { t.conns i with state := state }).sendHeader i answer else pure (t, [])

/-- The `switch` of `tcp_on_data`. -/
def tcpOnState (t : Tcp) (i : Nat) (header : TcpHeader) (payload : List Byte) : Outcome (Tcp × Emitted) :=
  let conn := t.conns i
  match conn.state with
  | .closed => pure (t, [])
  | .listen => pure (t, [])
  | .synSent =>
    -- a payload that comes with the answer has been counted and is not stored
    if header.flags &&& (tcpSyn ||| tcpAck) = tcpSyn ||| tcpAck then do
      let (t, ack) ← (t.setConn i { conn with state := .established }).sendHeader i tcpAck
      let (t, data) ← t.sendBufferedData
      pure (t, ack ++ data)
    else t.sendHeader i tcpRst
  | .synReceived =>
    if header.flags &&& tcpAck ≠ 0 then
      match t.resolvePassive (htons header.dstPort) with
      | none => pure (t, [])
      | some l =>
        let listener := t.listeners l
        -- the entry is dropped when the backlog is full
        let t := t.setListener l { listener with backlog := listener.backlog.write conn.id }
        (t.setConn i { conn with state := .established }).sendBufferedData
    else t.sendHeader i tcpRst
  | .established => do
    let (t, ack) ← tcpOnPayload t i payload
    let (t, fin) ← tcpOnFin t i header .lastAck (tcpAck ||| tcpFin)
    pure (t, ack ++ fin)
  | .finWait1 =>
    let t := if header.flags &&& tcpAck ≠ 0 then t.setConn i { conn with state := .finWait2 } else t
    tcpOnFin t i header .timeWait tcpAck
  | .finWait2 => tcpOnFin t i header .timeWait tcpAck
  | .closeWait | .closing | .timeWait | .lastAck =>
    if header.flags &&& tcpAck ≠ 0 then pure (t.setConn i conn.close, []) else pure (t, [])

/-- `header_len`. -/
def TcpHeader.len (header : TcpHeader) : BitVec 16 := (header.dataOffset >>> 4).setWidth 16 * 4

/-- What `tcp_on_data` does: the tables, what is emitted, and the indices in `data` from which the payload
is read. -/
structure Received where
  tcp : Tcp
  emitted : Emitted
  reads : List Nat

def tcpOnData (t : Tcp) (src : Ipv4Addr) (data : Nat → Byte) (dataLen : BitVec 16) (randId : BitVec 16) (randSeq : BitVec 32) :
    Outcome Received :=
  if dataLen.toNat < 20 then pure ⟨t, [], []⟩
  else
    let header := TcpHeader.ofMemory data
    -- the difference wraps when the header is longer than the data
    let payloadLen := dataLen - header.len
    match t.resolveConn 0 src (htons header.dstPort) (htons header.srcPort) with
    | none => do
      let (t, emitted) ← tcpOnIncoming t src header randId randSeq
      pure ⟨t, emitted, []⟩
    | some i =>
      let conn := t.conns i
      if header.flags &&& tcpRst ≠ 0 then pure ⟨t.setConn i conn.close, [], []⟩
      else if conn.state ≠ .synSent ∧ htonl header.seqNum ≠ conn.ack then pure ⟨t, [], []⟩
      else do
        let payload := bytesFrom data header.len.toNat payloadLen.toNat
        let (t, emitted) ← tcpOnState (t.setConn i (conn.acknowledge header payloadLen)) i header payload
        let reads := if conn.state = .established then (List.range payloadLen.toNat).map (header.len.toNat + ·) else []
        pure ⟨t, emitted, reads⟩

def tcpSend (t : Tcp) (connId : BitVec 32) (data : Nat → Byte) (dataLen : BitVec 16) : Outcome (Int × Tcp × Emitted) :=
  if dataLen = 0 then pure (0, t, [])
  else
    match t.getConn connId with
    | none => pure (0, t, [])
    | some i => do
      let conn := t.conns i
      -- bytes that do not fit overwrite the oldest ones
      let conn := { conn with
        sendBuf := ringWrite sendBufSize conn.sendBuf conn.sendHead (bytesFrom data 0 dataLen.toNat)
        sendHead := conn.sendHead + dataLen.setWidth 32 }
      let (t, emitted) ← (t.setConn i conn).sendBufferedData
      pure (1, t, emitted)

/-- `tcp_receive`, with the bytes that it copies to `data`; it returns how many they are. -/
def tcpReceive (t : Tcp) (connId : BitVec 32) (dataLen : BitVec 16) : List Byte × Tcp :=
  match t.getConn connId with
  | none => ([], t)
  | some i =>
    let conn := t.conns i
    let len := min dataLen.toNat (conn.recvHead - conn.recvTail).toNat
    let bytes := (List.range len).map fun k => conn.recvBuf ((conn.recvTail + BitVec.ofNat 32 k).toNat % recvBufSize)
    (bytes, t.setConn i { conn with recvTail := conn.recvTail + BitVec.ofNat 32 len })

inductive TcpCall where
  | active (id : BitVec 16) (remoteAddr : Ipv4Addr) (remotePort localPort : BitVec 16) (random : BitVec 32)
  | passive (id port : BitVec 16)
  | accept (newId id : BitVec 16)
  | terminate (connId : BitVec 32)
  | segment (src : Ipv4Addr) (data : Nat → Byte) (dataLen : BitVec 16) (randId : BitVec 16) (randSeq : BitVec 32)
  | send (connId : BitVec 32) (data : Nat → Byte) (dataLen : BitVec 16)
  | receive (connId : BitVec 32) (dataLen : BitVec 16)

def TcpCall.run (t : Tcp) : TcpCall → Outcome (Tcp × Emitted)
  | .active id remoteAddr remotePort localPort random => do
    let (_, t, emitted) ← tcpActive t id remoteAddr remotePort localPort random
    pure (t, emitted)
  | .passive id port => pure ((tcpPassive t id port).2, [])
  | .accept newId id => pure ((tcpAccept t newId id).2, [])
  | .terminate connId => do
    let (_, t, emitted) ← tcpTerminateConnection t connId
    pure (t, emitted)
  | .segment src data dataLen randId randSeq => do
    let received ← tcpOnData t src data dataLen randId randSeq
    pure (received.tcp, received.emitted)
  | .send connId data dataLen => do
    let (_, t, emitted) ← tcpSend t connId data dataLen
    pure (t, emitted)
  | .receive connId dataLen => pure ((tcpReceive t connId dataLen).2, [])

end Xos.Net
