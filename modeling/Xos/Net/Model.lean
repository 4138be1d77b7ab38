import Xos.Lib.Outcome
import Xos.Lib.Word

/-!
# Sending TCP segments (`tcp.c`, `ip.c`, `routing.c`)

The bytes of a segment and of the IPv4 packet around it, as they lie in memory. What is handed to the
driver of a network card is the result of sending. The fields of a connection for receiving and for
finding it are left out, as are log lines; an allocation is taken to succeed.
-/
namespace Xos.Net

open Word

abbrev Byte := BitVec 8

/-- `ipv4_addr`, by its `value`. -/
abbrev Ipv4Addr := BitVec 32

/-- `parts[i]` of an address. -/
def part (addr : Ipv4Addr) (i : Nat) : Byte := addr.extractLsb' (8 * i) 8

/-- `IP(a, b, c, d)`. -/
def ipv4 (a b c d : Nat) : Ipv4Addr := BitVec.ofNat 32 (d * 2 ^ 24 + c * 2 ^ 16 + b * 2 ^ 8 + a)

def htons (x : BitVec 16) : BitVec 16 := x >>> 8 ||| x <<< 8

def htonl (x : BitVec 32) : BitVec 32 :=
  (x &&& 0xFF) <<< 24 ||| ((x >>> 8) &&& 0xFF) <<< 16 ||| ((x >>> 16) &&& 0xFF) <<< 8 ||| x >>> 24

/-- A `ushort` in memory. -/
def ushortBytes (x : BitVec 16) : List Byte := [x.extractLsb' 0 8, x.extractLsb' 8 8]

/-- A `uint` or an address in memory. -/
def uintBytes (x : BitVec 32) : List Byte := [part x 0, part x 1, part x 2, part x 3]

/-- `while (sum >> 16) sum = (sum & 0xFFFF) + (sum >> 16)`, so many times at most. -/
def foldCarries : Nat → Nat → Outcome Nat
  | 0, _ => throw .diverges
  | fuel + 1, sum =>
    if sum >>> 16 ≠ 0 then foldCarries fuel ((sum &&& 0xFFFF) + (sum >>> 16)) else pure sum

/-- The first loop of `ip_checksum` and the byte that can be left. -/
def addUshorts : List Byte → Nat → Nat
  | low :: high :: rest, sum => addUshorts rest (u32 (sum + (low.toNat + 256 * high.toNat)))
  | [last], sum => u32 (sum + last.toNat)
  | [], sum => sum

def ipChecksum (data : List Byte) : Outcome (BitVec 16) := do
  let sum ← foldCarries (2 ^ 32) (addUshorts data 0)
  pure (~~~(BitVec.ofNat 16 sum))

/-- `((uint)high << 8) | low`. -/
def word (high low : Byte) : Nat := high.toNat <<< 8 ||| low.toNat

/-- The loop of `tcp_checksum` over the segment and the byte that can be left. -/
def addWords : List Byte → Nat → Nat
  | high :: low :: rest, sum => addWords rest (u32 (sum + word high low))
  | [last], sum => u32 (sum + last.toNat <<< 8)
  | [], sum => sum

structure Route where
  destination : Ipv4Addr
  netmask : Ipv4Addr
  gateway : Ipv4Addr
  nicId : Int
  metric : Int
  deriving DecidableEq, Repr

def noRoute : Route := ⟨0, 0, 0, 0, 0⟩

def routingTableMaxEntreis : Nat := 256

def maxNics : Nat := 4

/-- `g_loopback_ops` and `g_e1000_ops`. -/
inductive Driver where
  | loopback
  | e1000
  deriving DecidableEq, Repr

/-- `nic`, with `none` for a null `driver`. -/
structure Nic where
  nicId : Int
  addr : Ipv4Addr
  driver : Option Driver
  deriving DecidableEq, Repr

inductive TcpState where
  | closed
  | listen
  | synSent
  | synReceived
  | established
  | finWait1
  | finWait2
  | closeWait
  | closing
  | timeWait
  | lastAck
  deriving DecidableEq, Repr

structure TcpActiveSocket where
  state : TcpState
  localIp : Ipv4Addr
  remoteIp : Ipv4Addr
  localPort : BitVec 16
  remotePort : BitVec 16
  seq : BitVec 32
  ack : BitVec 32
  sendBuf : Nat → Byte
  sendHead : BitVec 32
  sendTail : BitVec 32

def tcpMaxConnections : Nat := 4

def sendBufSize : Nat := 4096

/-- `g_nics`, the routes in use, `ip_id` and `g_active_sockets`. -/
structure Stack where
  nics : Nat → Nic
  routes : Nat → Option Route
  ipId : BitVec 16
  conns : Nat → TcpActiveSocket

namespace Stack

/-- `g_nics[i]`. -/
def nicAt (net : Stack) (i : Int) : Outcome Nic :=
  if 0 ≤ i ∧ i < maxNics then pure (net.nics i.toNat) else throw (.outOfBounds i.natAbs)

@[simps] def setConn (net : Stack) (i : Nat) (conn : TcpActiveSocket) : Stack :=
  { net with conns := Function.update net.conns i conn }

end Stack

/-- The body of the loops of `find_best_route` and `find_best_route_for_nic`, which differ in the routes
that they look at. While there is no best route its metric is read through a null pointer. -/
def considerRoute (net : Stack) (wanted : Route → Bool) (dst : Ipv4Addr) (i : Nat) (best : Option Route × Ipv4Addr) :
    Outcome (Option Route × Ipv4Addr) :=
  match net.routes i with
  | none => pure best
  | some r =>
    if !wanted r then pure best
    else if dst &&& r.netmask = r.destination &&& r.netmask then
      if best.2 < r.netmask then pure (some r, r.netmask)
      else if r.netmask = best.2 then
        match best.1 with
        -- a default route is met while `best` is null: its mask is the initial one
        | none => throw (.outOfBounds 0)
        | some known => pure (if r.metric < known.metric then (some r, r.netmask) else best)
      else pure best
    else pure best

/-- The two searches, with the route that `route_out` leads to before and after. -/
def findRoute (net : Stack) (wanted : Route → Bool) (dst : Ipv4Addr) (out : Route) : Outcome Route := do
  let best ← Outcome.forRange (considerRoute net wanted dst) routingTableMaxEntreis 0 (none, 0)
  pure (best.1.getD out)

def findBestRoute (net : Stack) (dst : Ipv4Addr) : Outcome Route :=
  findRoute net (fun _ => true) dst noRoute

def findBestRouteForNic (net : Stack) (nicId : Int) (dst : Ipv4Addr) : Outcome Route :=
  findRoute net (fun r => decide (r.nicId = nicId)) dst noRoute

def protocolTcp : Byte := 6

structure Ipv4Header where
  versionIhl : Byte
  dscpEcn : Byte
  totalLength : BitVec 16
  identification : BitVec 16
  flagsFragmentOffset : BitVec 16
  ttl : Byte
  protocol : Byte
  headerChecksum : BitVec 16
  srcAddr : Ipv4Addr
  dstAddr : Ipv4Addr
  deriving DecidableEq, Repr

def Ipv4Header.bytes (h : Ipv4Header) : List Byte :=
  [h.versionIhl, h.dscpEcn] ++ ushortBytes h.totalLength ++ ushortBytes h.identification ++
    ushortBytes h.flagsFragmentOffset ++ [h.ttl, h.protocol] ++ ushortBytes h.headerChecksum ++
    uintBytes h.srcAddr ++ uintBytes h.dstAddr

structure IpSendOpts where
  srcAddr : Ipv4Addr
  nicId : Int
  deriving DecidableEq, Repr

structure Sent where
  driver : Driver
  packet : List Byte
  nextHop : Ipv4Addr
  deriving DecidableEq, Repr

/-- The choice of a card and a route in `ip_send`, with the index of the card and `none` for a null
pointer. Without options the number of the card in the route is taken for its index. -/
def chooseNic (net : Stack) (dst : Ipv4Addr) (opts : IpSendOpts) : Outcome (Option Int × Route) :=
  let onCard (found : Option Nat) : Outcome (Option Int × Route) :=
    match found with
    | none => pure (none, noRoute)
    | some i => do pure (some i, ← findBestRouteForNic net (net.nics i).nicId dst)
  if opts.nicId ≠ 0 then
    onCard ((List.range maxNics).find? fun i => decide ((net.nics i).nicId = opts.nicId))
  else if opts.srcAddr = 0 then do
    let route ← findBestRoute net dst
    pure (some route.nicId, route)
  else
    onCard ((List.range maxNics).find? fun i => decide ((net.nics i).addr = opts.srcAddr))

/-- The header that `ip_send` builds, before its checksum. -/
def ipv4Header (net : Stack) (src dst : Ipv4Addr) (protocol : Byte) (payloadLen : BitVec 16) : Ipv4Header where
  versionIhl := 4 <<< 4 ||| 5
  dscpEcn := 0
  totalLength := htons (20 + payloadLen)
  identification := htons net.ipId
  flagsFragmentOffset := htons (1 <<< 14)
  ttl := 64
  protocol := protocol
  headerChecksum := 0
  srcAddr := src
  dstAddr := dst

/-- `total` is a `ushort`; a packet that is longer is copied past the end of its memory. -/
def ipSend (net : Stack) (dst : Ipv4Addr) (protocol : Byte) (payload : List Byte) (payloadLen : BitVec 16)
    (opts : IpSendOpts) : Outcome (Stack × Option Sent) := do
  let (index, route) ← chooseNic net dst opts
  match index with
  | none => pure (net, none)
  | some i =>
    -- without a route the packet is dropped with a warning
    if route.nicId = 0 then pure (net, none)
    else do
      let nic ← net.nicAt i
      let header := ipv4Header net nic.addr dst protocol payloadLen
      let checksum ← ipChecksum header.bytes
      let header := { header with headerChecksum := checksum }
      let total : BitVec 16 := 20 + payloadLen
      if total.toNat < 20 + payloadLen.toNat then throw (.outOfBounds total.toNat)
      else
        let packet := header.bytes ++ payload.take payloadLen.toNat
        let nextHop := if route.gateway ≠ 0 then route.gateway else dst
        match nic.driver with
        | none => throw (.outOfBounds 0)
        | some driver => pure ({ net with ipId := net.ipId + 1 }, some ⟨driver, packet, nextHop⟩)

def tcpFin : Byte := 1

def tcpSyn : Byte := 1 <<< 1

def tcpAck : Byte := 1 <<< 4

structure TcpHeader where
  srcPort : BitVec 16
  dstPort : BitVec 16
  seqNum : BitVec 32
  ackNum : BitVec 32
  dataOffset : Byte
  flags : Byte
  window : BitVec 16
  checksum : BitVec 16
  urgentPtr : BitVec 16
  deriving DecidableEq, Repr

def TcpHeader.bytes (h : TcpHeader) : List Byte :=
  ushortBytes h.srcPort ++ ushortBytes h.dstPort ++ uintBytes h.seqNum ++ uintBytes h.ackNum ++ [h.dataOffset, h.flags] ++
    ushortBytes h.window ++ ushortBytes h.checksum ++ ushortBytes h.urgentPtr

def createHeader (conn : TcpActiveSocket) (flags : Byte) : TcpHeader where
  srcPort := htons conn.localPort
  dstPort := htons conn.remotePort
  seqNum := htonl conn.seq
  ackNum := htonl conn.ack
  dataOffset := 5 <<< 4
  flags := flags
  window := htons 8192
  checksum := 0
  urgentPtr := 0

/-- What `tcp_checksum` adds up before the segment. -/
def pseudoSum (conn : TcpActiveSocket) (segmentLen : BitVec 16) : Nat :=
  -- the source of the pseudo-header is that of the connection, whatever card the packet leaves by
  let src := conn.localIp
  let sum := u32 (0 + word (part src 0) (part src 1))
  let sum := u32 (sum + word (part src 2) (part src 3))
  let sum := u32 (sum + word (part conn.remoteIp 0) (part conn.remoteIp 1))
  let sum := u32 (sum + word (part conn.remoteIp 2) (part conn.remoteIp 3))
  let sum := u32 (sum + protocolTcp.toNat)
  u32 (sum + segmentLen.toNat)

/-- The rest of `tcp_checksum`. -/
def segmentChecksum (data : List Byte) (sum : Nat) : Outcome (BitVec 16) := do
  let sum ← foldCarries (2 ^ 32) (addWords data sum)
  pure (htons (~~~(BitVec.ofNat 16 sum)))

def tcpChecksum (conn : TcpActiveSocket) (segment : List Byte) (segmentLen : BitVec 16) : Outcome (BitVec 16) :=
  segmentChecksum (segment.take segmentLen.toNat) (pseudoSum conn segmentLen)

/-- A segment with its checksum, given to `ip_send`. -/
def sendSegment (net : Stack) (conn : TcpActiveSocket) (header : TcpHeader) (payload : List Byte) (len : BitVec 16) :
    Outcome (Stack × Option Sent) := do
  let checksum ← tcpChecksum conn (header.bytes ++ payload) len
  ipSend net conn.remoteIp protocolTcp ({ header with checksum := checksum }.bytes ++ payload) len ⟨0, 0⟩

/-- `send_header`, on the connection at an index. -/
def sendHeader (net : Stack) (i : Nat) (flags : Byte) : Outcome (Stack × Option Sent) := do
  let conn := net.conns i
  -- the header has the sequence number from before the count
  let header := createHeader conn flags
  let conn := if flags &&& (tcpSyn ||| tcpFin) ≠ 0 then { conn with seq := conn.seq + 1 } else conn
  sendSegment (net.setConn i conn) conn header [] 20

def TcpActiveSocket.payloadLen (conn : TcpActiveSocket) : Nat := (conn.sendHead - conn.sendTail).toNat

/-- The bytes that the inner loop of `tcp_send_buffered_data` copies. -/
def TcpActiveSocket.payload (conn : TcpActiveSocket) : List Byte :=
  (List.range conn.payloadLen).map fun i => conn.sendBuf ((conn.sendTail + BitVec.ofNat 32 i).toNat % sendBufSize)

/-- The body of the outer loop of `tcp_send_buffered_data`, with the segments that have been sent and the
connections that they are of. The inner loop counts in a `ushort`. -/
def sendBuffered (i : Nat) (state : Stack × List (Nat × Sent)) : Outcome (Stack × List (Nat × Sent)) :=
  let conn := state.1.conns i
  if conn.state ≠ .established ∨ conn.payloadLen = 0 then pure state
  -- no `ushort` reaches such a length
  else if 2 ^ 16 ≤ conn.payloadLen then throw .diverges
  else do
    let header := createHeader conn tcpAck
    let after := { conn with sendTail := conn.sendTail + BitVec.ofNat 32 conn.payloadLen }
    let len := BitVec.ofNat 16 (conn.payloadLen + 20)
    let (net, sent) ← sendSegment (state.1.setConn i after) after header conn.payload len
    let net := net.setConn i { after with seq := after.seq + BitVec.ofNat 32 conn.payloadLen }
    pure (net, state.2 ++ sent.toList.map fun sent => (i, sent))

def tcpSendBufferedData (net : Stack) : Outcome (Stack × List (Nat × Sent)) :=
  Outcome.forRange sendBuffered tcpMaxConnections 0 (net, [])

end Xos.Net
