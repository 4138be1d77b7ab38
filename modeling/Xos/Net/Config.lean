import Mathlib.Logic.Function.Basic
import Xos.Net.Model

/-!
# Network cards and routes (`networking.c`, `routing.c`)

The numbers of the cards are drawn by `rand32`, and are arguments here. The fields `is_up` and `conf` and
the scan of the PCI bus are left out.
-/
namespace Xos.Net

open Function

/-- `route_upsert`, on the routes in use. -/
def routeUpsert (routes : Nat → Option Route) (rt : Route) : Nat → Option Route :=
  let same (r : Route) : Bool := r.destination = rt.destination ∧ r.netmask = rt.netmask ∧ r.nicId = rt.nicId
  match (List.range routingTableMaxEntreis).find? fun i => (routes i).any same with
  | some i => update routes i (some rt)
  | none =>
    match (List.range routingTableMaxEntreis).find? fun i => (routes i).isNone with
    | some i => update routes i (some rt)
    | none => routes

/-- `find_best_route`, for any route at `route_out`. -/
def findBestRouteInto (net : Stack) (dst : Ipv4Addr) (out : Route) : Outcome Route :=
  findRoute net (fun _ => true) dst out

/-- `find_best_route_for_nic`, in the same way. The `nic_id` of a route is an `int`, and is compared as the unsigned
long that the parameter is. -/
def findBestRouteForNicInto (net : Stack) (nicId : BitVec 64) (dst : Ipv4Addr) (out : Route) : Outcome Route :=
  findRoute net (fun r => decide (BitVec.ofInt 64 r.nicId = nicId)) dst out

/-- `nic`, with the fields for its configuration. -/
structure NicEntry extends Nic where
  used : Bool
  netmask : Ipv4Addr
  defaultGateway : Ipv4Addr
  deriving DecidableEq, Repr

/-- `g_nics` and the routes in use. -/
structure Host where
  nics : Nat → NicEntry
  routes : Nat → Option Route

namespace Host

/-- What `ip_send` sees. -/
def stack (host : Host) (ipId : BitVec 16) (conns : Nat → TcpActiveSocket) : Stack :=
  ⟨fun i => (host.nics i).toNic, host.routes, ipId, conns⟩

def setNic (host : Host) (i : Nat) (nic : NicEntry) : Host := { host with nics := update host.nics i nic }

def upsert (host : Host) (rt : Route) : Host := { host with routes := routeUpsert host.routes rt }

end Host

/-- `register_nic`, with the number that it returns. -/
def registerNic (host : Host) (driver : Driver) (random : BitVec 32) : Host × Int :=
  match (List.range maxNics).find? fun i => !(host.nics i).used with
  | some i =>
    let nicId := random.toInt
    let nic : NicEntry := ⟨⟨nicId, ipv4 0 0 0 0, some driver⟩, true, ipv4 0 0 0 0, ipv4 0 0 0 0⟩
    ((host.setNic i nic).upsert ⟨ipv4 255 255 255 255, ipv4 255 255 255 255, ipv4 0 0 0 0, nicId, 100⟩, nicId)
  | none => (host, -1)

/-- `get_nic`, with the index of the card. -/
def getNic (host : Host) (nicId : Int) : Option Nat :=
  (List.range maxNics).find? fun i => (host.nics i).used && decide ((host.nics i).nicId = nicId)

/-- `networking_init`, up to its scan for other cards. -/
def networkingInit (host : Host) (random : BitVec 32) : Outcome Host :=
  let (host, loopbackNicId) := registerNic host .loopback random
  match getNic host loopbackNicId with
  | none => throw (.outOfBounds 0)
  | some i =>
    let loopback := { host.nics i with addr := ipv4 127 0 0 1, netmask := ipv4 255 0 0 0 }
    pure ((host.setNic i loopback).upsert ⟨ipv4 127 0 0 0, ipv4 255 0 0 0, ipv4 0 0 0 0, loopbackNicId, 10⟩)

inductive NicConfigField where
  | address
  | netmask
  | gateway
  | metric
  deriving DecidableEq, Repr

def connectedRoute (addr netmask : Ipv4Addr) (nicId : Int) : Route := ⟨addr &&& netmask, netmask, ipv4 0 0 0 0, nicId, 0⟩

def configureNic (host : Host) (nicId : Int) (field : NicConfigField) (value : Nat) : Host :=
  match getNic host nicId with
  | none => host
  | some i =>
    let nic := host.nics i
    let value := BitVec.ofNat 32 value
    match field with
    -- the route that an earlier setting has added stays
    | .address =>
      let host := host.setNic i { nic with addr := value }
      if nic.netmask ≠ 0 then host.upsert (connectedRoute value nic.netmask nicId) else host
    | .netmask =>
      let host := host.setNic i { nic with netmask := value }
      if nic.addr ≠ 0 then host.upsert (connectedRoute nic.addr value nicId) else host
    | .gateway =>
      (host.setNic i { nic with defaultGateway := value }).upsert
        ⟨ipv4 0 0 0 0, ipv4 0 0 0 0, value, nicId, 100⟩
    | .metric => host

end Xos.Net
