import Xos.Net.Model

/-!
# Echo requests (`icmp.c`)

The header of a message and its checksum.
-/
namespace Xos.Net.Icmp

def icmpEchoRequest : Byte := 8

structure IcmpHeader where
  type : Byte
  code : Byte
  checksum : BitVec 16
  rest : BitVec 32
  deriving DecidableEq, Repr

def IcmpHeader.bytes (h : IcmpHeader) : List Byte := [h.type, h.code] ++ ushortBytes h.checksum ++ uintBytes h.rest

/-- `checksum`, which has the loops of `ip_checksum` and counts in a `uint`. -/
def checksum (data : List Byte) : Outcome (BitVec 16) := do
  let sum ← foldCarries (2 ^ 32) (addUshorts data 0)
  pure (~~~(BitVec.ofNat 16 sum))

end Xos.Net.Icmp
