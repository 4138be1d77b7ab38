import Mathlib.Logic.Function.Basic
import Xos.Net.Model

/-!
# Ethernet frames and ARP (`ethernet.c`, `arp.c`, `drivers/ethernet_driver.c`)

A frame whose next hop has no entry in the ARP table is copied to memory of its own and kept in
`s_pending` until an ARP reply comes in. The memory is that of the copies, by address; an address that
`kmalloc` returns is an argument. What is given to the driver for transmission is the result. The
memory in which `ethernet_send` puts a frame together, and log lines, are left out.
-/
namespace Xos.Net

open Function

/-- `mac_addr`. -/
abbrev MacAddr := Fin 6 → Byte

def broadcastMac : MacAddr := fun _ => 0xFF

def ushortAt (data : List Byte) (i : Nat) : BitVec 16 := data.getD (i + 1) 0 ++ data.getD i 0

def addressAt (data : List Byte) (i : Nat) : Ipv4Addr :=
  data.getD (i + 3) 0 ++ data.getD (i + 2) 0 ++ data.getD (i + 1) 0 ++ data.getD i 0

def macAt (data : List Byte) (i : Nat) : MacAddr := fun j => data.getD (i + j) 0

structure ArpEntry where
  ip : Ipv4Addr
  mac : MacAddr

/-- `pending_frame`, with `none` for a null `driver`. -/
structure PendingFrame where
  waitingFor : Ipv4Addr
  driver : Option Driver
  frame : Nat
  len : BitVec 16
  deriving DecidableEq

def arpTableSize : Nat := 16

def maxPendingFrames : Nat := 128

/-- `arp_table`, `s_pending`, the memory of the frames in it, and the address of the card. -/
structure Ethernet where
  arpTable : Nat → ArpEntry
  pending : Nat → PendingFrame
  memory : Nat → Option (List Byte)
  mac : MacAddr

namespace Ethernet

def setPending (eth : Ethernet) (i : Nat) (slot : PendingFrame) : Ethernet :=
  { eth with pending := update eth.pending i slot }

/-- `kmalloc` and the copy that follows it. -/
def store (eth : Ethernet) (addr : Nat) (bytes : List Byte) : Ethernet :=
  { eth with memory := update eth.memory addr (some bytes) }

def load (eth : Ethernet) (addr : Nat) (len : BitVec 16) : Outcome (List Byte) :=
  match eth.memory addr with
  | none => throw (.outOfBounds addr)
  | some bytes => pure (bytes.take len.toNat)

def kfree (eth : Ethernet) (addr : Nat) : Outcome Ethernet :=
  match eth.memory addr with
  | none => throw (.outOfBounds addr)
  | some _ => pure { eth with memory := update eth.memory addr none }

end Ethernet

def ethertypeArp : BitVec 16 := 0x0806

def ethertypeIpv4 : BitVec 16 := 0x0800

/-- `ethernet_frame` and what follows it. -/
def ethernetFrame (dst src : MacAddr) (ethertype : BitVec 16) (payload : List Byte) : List Byte :=
  List.ofFn dst ++ List.ofFn src ++ ushortBytes (htons ethertype) ++ payload

/-- The frame that `ethernet_send` gives to the driver. The loopback driver has no `get_mac`, and `total` is a
`ushort`: a frame that is longer is copied past the end of its memory. -/
def ethernetSend (eth : Ethernet) (dst : MacAddr) (ethertype : BitVec 16) (payload : List Byte) (payloadLen : BitVec 16)
    (driver : Option Driver) : Outcome (List Byte) :=
  let total : BitVec 16 := 14 + payloadLen
  if driver ≠ some .e1000 then throw (.outOfBounds 0)
  else if total.toNat < 14 + payloadLen.toNat then throw (.outOfBounds total.toNat)
  else pure (ethernetFrame dst eth.mac ethertype (payload.take payloadLen.toNat))

def arpRequest : BitVec 16 := 1

def arpReply : BitVec 16 := 2

structure ArpPacketIpv4 where
  hardwareType : BitVec 16
  protocolType : BitVec 16
  hardwareLength : Byte
  protocolLength : Byte
  opCode : BitVec 16
  senderMacAddress : MacAddr
  senderIpAddress : Ipv4Addr
  targetMacAddress : MacAddr
  targetIpAddress : Ipv4Addr

def sizeofArpPacketIpv4 : Nat := 28

namespace ArpPacketIpv4

def bytes (packet : ArpPacketIpv4) : List Byte :=
  ushortBytes packet.hardwareType ++ ushortBytes packet.protocolType ++ [packet.hardwareLength, packet.protocolLength] ++
    ushortBytes packet.opCode ++ List.ofFn packet.senderMacAddress ++ uintBytes packet.senderIpAddress ++
    List.ofFn packet.targetMacAddress ++ uintBytes packet.targetIpAddress

def ofBytes (data : List Byte) : ArpPacketIpv4 where
  hardwareType := ushortAt data 0
  protocolType := ushortAt data 2
  hardwareLength := data.getD 4 0
  protocolLength := data.getD 5 0
  opCode := ushortAt data 6
  senderMacAddress := macAt data 8
  senderIpAddress := addressAt data 14
  targetMacAddress := macAt data 18
  targetIpAddress := addressAt data 24

end ArpPacketIpv4

/-- The packets of `arp_reply_ipv4` and `arp_send_ipv4`. -/
def arpPacket (eth : Ethernet) (nic : Nic) (op : BitVec 16) (targetMac : MacAddr) (targetIp : Ipv4Addr) : ArpPacketIpv4 where
  hardwareType := htons 1
  protocolType := htons ethertypeIpv4
  hardwareLength := 6
  protocolLength := 4
  opCode := htons op
  senderMacAddress := eth.mac
  senderIpAddress := nic.addr
  targetMacAddress := targetMac
  targetIpAddress := targetIp

def arpReplyIpv4 (eth : Ethernet) (fromAddr : Ipv4Addr) (fromMac : MacAddr) (nic : Nic) : Outcome (List Byte) :=
  ethernetSend eth fromMac ethertypeArp (arpPacket eth nic arpReply fromMac fromAddr).bytes 28 nic.driver

def arpSendIpv4 (eth : Ethernet) (addr : Ipv4Addr) (nic : Nic) : Outcome (List Byte) :=
  ethernetSend eth broadcastMac ethertypeArp (arpPacket eth nic arpRequest (fun _ => 0) addr).bytes 28 nic.driver

/-- An entry is unused when its address is 0; one for the same address is not looked for. -/
def arpTableAdd (eth : Ethernet) (ip : Ipv4Addr) (mac : MacAddr) : Ethernet :=
  match (List.range arpTableSize).find? fun i => decide ((eth.arpTable i).ip = 0) with
  | some i => { eth with arpTable := update eth.arpTable i ⟨ip, mac⟩ }
  | none => eth

def arpTableLookup (eth : Ethernet) (ip : Ipv4Addr) : Option MacAddr :=
  if ip = 0xFFFFFFFF then some broadcastMac
  else ((List.range arpTableSize).find? fun i => decide ((eth.arpTable i).ip = ip)).map fun i => (eth.arpTable i).mac

def getPendingSlot (eth : Ethernet) : Option Nat :=
  (List.range maxPendingFrames).find? fun i => decide ((eth.pending i).frame = 0)

/-- `ethernet_driver_send`. `kmalloc` returns a null pointer for no bytes and else the address `block`. -/
def ethernetDriverSend (eth : Ethernet) (nic : Nic) (data : List Byte) (len : BitVec 16) (gateway : Ipv4Addr) (block : Nat) :
    Outcome (Ethernet × List (List Byte)) :=
  match arpTableLookup eth gateway with
  | some dstMac => do
    let frame ← ethernetSend eth dstMac ethertypeIpv4 data len nic.driver
    pure (eth, [frame])
  | none =>
    match getPendingSlot eth with
    -- the slot is written through a null pointer
    | none => throw (.outOfBounds 0)
    | some i => do
      let frame := if len = 0 then 0 else block
      let eth := if len = 0 then eth else eth.store block (data.take len.toNat)
      let eth := eth.setPending i ⟨gateway, nic.driver, frame, len⟩
      let request ← arpSendIpv4 eth gateway nic
      pure (eth, [request])

/-- The body of the loop of `ethernet_driver_flush_pending`. A slot is freed by its `frame`, and the test is of
its `len`. -/
def flushFrame (resolved : Ipv4Addr) (dstMac : MacAddr) (i : Nat) (state : Ethernet × List (List Byte)) :
    Outcome (Ethernet × List (List Byte)) :=
  let slot := state.1.pending i
  if slot.len ≠ 0 ∧ slot.waitingFor = resolved then do
    let payload ← state.1.load slot.frame slot.len
    let frame ← ethernetSend state.1 dstMac ethertypeIpv4 payload slot.len slot.driver
    let eth ← state.1.kfree slot.frame
    pure (eth.setPending i { slot with frame := 0 }, state.2 ++ [frame])
  else pure state

def ethernetDriverFlushPending (eth : Ethernet) (resolved : Ipv4Addr) : Outcome (Ethernet × List (List Byte)) :=
  match arpTableLookup eth resolved with
  | none => throw (.panic "Error")
  | some dstMac => Outcome.forRange (flushFrame resolved dstMac) maxPendingFrames 0 (eth, [])

def arpReceive (eth : Ethernet) (data : List Byte) (len : BitVec 16) (nic : Nic) : Outcome (Ethernet × List (List Byte)) :=
  if len.toNat < sizeofArpPacketIpv4 then pure (eth, [])
  else
    let packet := ArpPacketIpv4.ofBytes data
    let senderIp := packet.senderIpAddress
    let senderMac := packet.senderMacAddress
    let op := htons packet.opCode
    if op = arpReply then ethernetDriverFlushPending (arpTableAdd eth senderIp senderMac) senderIp
    else if op = arpRequest then
      -- only when someone is asking for our address
      if packet.targetIpAddress = nic.addr then do
        let reply ← arpReplyIpv4 eth senderIp senderMac nic
        pure (eth, [reply])
      else pure (eth, [])
    else pure (eth, [])

end Xos.Net
