import Xos.Lib.Pool
import Xos.Net.IpSend
import Xos.Net.Routing

/-!
# Cards and their routes

Setting the address or the netmask of a card adds a route and leaves the one of an earlier setting. A packet leaves by
the card whose index is the number in the best route.
-/
namespace Xos.Net

open Lib Relation Function

def Route.Direct (r : Route) (nicId : Int) : Prop := r.nicId = nicId ∧ r.gateway = 0 ∧ r.metric = 0

def Host.Connected (host : Host) (nicId : Int) (r : Route) : Prop :=
  KeyedTable.Holds routingTableMaxEntreis host.routes r ∧ r.Direct nicId

/-- There is at most one directly connected route for the card at `k`, and when its address and netmask are set
it is the one to its network. -/
structure Host.OneConnected (host : Host) (nicId : Int) (k : Nat) : Prop where
  single : ∀ i < routingTableMaxEntreis, ∀ j < routingTableMaxEntreis, ∀ r r', host.routes i = some r → host.routes j = some r' →
    r.Direct nicId → r'.Direct nicId → i = j
  exact : (host.nics k).addr ≠ 0 → (host.nics k).netmask ≠ 0 →
    ∀ r, host.Connected nicId r ↔ r = connectedRoute (host.nics k).addr (host.nics k).netmask nicId

/-- A route to this network is the only one of the card, and there is an entry for it. -/
def Host.Admits (host : Host) (nicId : Int) (rt : Route) : Prop :=
  (∀ r, host.Connected nicId r → r.key = rt.key) ∧ KeyedTable.Room Route.key routingTableMaxEntreis host.routes rt.key

def Host.Settles (host : Host) (nicId : Int) (k : Nat) (field : NicConfigField) (value : Nat) : Prop :=
  match field with
  | .address => (host.nics k).netmask ≠ 0 →
    host.Admits nicId (connectedRoute (BitVec.ofNat 32 value) (host.nics k).netmask nicId)
  | .netmask => (host.nics k).addr ≠ 0 →
    host.Admits nicId (connectedRoute (host.nics k).addr (BitVec.ofNat 32 value) nicId)
  | .gateway => True
  | .metric => True

/-- A call of `configure_nic` for the card. -/
def ConfigureStep (nicId : Int) (k : Nat) (host host' : Host) : Prop :=
  ∃ field value, host' = configureNic host nicId field value ∧ host.Settles nicId k field value

section Configure

variable {host : Host} {nicId : Int} {k : Nat}

structure Host.Kept (host : Host) (nicId : Int) (k : Nat) : Prop where
  found : getNic host nicId = some k
  distinct : KeyedTable.Distinct Route.key routingTableMaxEntreis host.routes
  alike : ∀ r r', host.Connected nicId r → host.Connected nicId r' → r.key = r'.key
  exact : (host.nics k).addr ≠ 0 → (host.nics k).netmask ≠ 0 →
    ∀ r, host.Connected nicId r ↔ r = connectedRoute (host.nics k).addr (host.nics k).netmask nicId

theorem Host.Kept.oneConnected (kept : host.Kept nicId k) : host.OneConnected nicId k where
  single i inside j below r r' here there direct direct' :=
    kept.distinct i inside j below r r' here there (kept.alike r r' ⟨⟨i, inside, here⟩, direct⟩ ⟨⟨j, below, there⟩, direct'⟩)
  exact := kept.exact

theorem getNic_setNic {nic : NicEntry} (same : nic.used = (host.nics k).used ∧ nic.nicId = (host.nics k).nicId) (nicId : Int) :
    getNic (host.setNic k nic) nicId = getNic host nicId := by
  have unchanged (i : Nat) : ((host.setNic k nic).nics i).used = (host.nics i).used ∧
      ((host.setNic k nic).nics i).nicId = (host.nics i).nicId := by
    by_cases here : i = k
    · subst here
      simpa [Host.setNic] using same
    · simp [Host.setNic, here]
  simp only [getNic, unchanged]

theorem upsert_routes (host : Host) (rt : Route) :
    (host.upsert rt).routes = KeyedTable.upsert Route.key routingTableMaxEntreis host.routes rt := routeUpsert_eq host.routes rt

private theorem Host.Kept.set (kept : host.Kept nicId k) {nic : NicEntry}
    (same : nic.used = (host.nics k).used ∧ nic.nicId = (host.nics k).nicId) (unset : nic.addr = 0 ∨ nic.netmask = 0) :
    (host.setNic k nic).Kept nicId k where
  found := (getNic_setNic same nicId).trans kept.found
  distinct := kept.distinct
  alike := kept.alike
  exact := by
    simp only [Host.setNic, update_self]
    intro addressed masked
    rcases unset with zero | zero
    · exact absurd zero addressed
    · exact absurd zero masked

theorem connected_add (host : Host) (distinct : KeyedTable.Distinct Route.key routingTableMaxEntreis host.routes)
    {rt : Route} (admits : host.Admits nicId rt) (direct : rt.Direct nicId) (r : Route) :
      (host.upsert rt).Connected nicId r ↔ r = rt := by
  rw [Host.Connected, upsert_routes, distinct.holds_upsert admits.2]
  constructor
  · rintro ⟨new | ⟨held, other⟩, old⟩
    · exact new
    · exact absurd (admits.1 r ⟨held, old⟩) other
  · rintro rfl
    exact ⟨.inl rfl, direct⟩

section

variable (kept : host.Kept nicId k) (nic : NicEntry) (same : nic.used = (host.nics k).used ∧ nic.nicId = (host.nics k).nicId)
include kept nic same

theorem Host.Kept.connect (admits : host.Admits nicId (connectedRoute nic.addr nic.netmask nicId)) :
    ((host.setNic k nic).upsert (connectedRoute nic.addr nic.netmask nicId)).Kept nicId k := by
  have only := connected_add (host.setNic k nic) kept.distinct admits ⟨rfl, rfl, rfl⟩
  refine ⟨(getNic_setNic same nicId).trans kept.found, ?_, fun r r' here there => ?_, fun _ _ r => ?_⟩
  · rw [upsert_routes]
    exact kept.distinct.upsert _
  · rw [(only r).mp here, (only r').mp there]
  · have here : ((host.setNic k nic).upsert (connectedRoute nic.addr nic.netmask nicId)).nics k = nic := update_self ..
    rw [here]
    exact only r

/-- The default route has another metric, and another netmask than a network. -/
theorem Host.Kept.gateway (network : nic.addr = (host.nics k).addr ∧ nic.netmask = (host.nics k).netmask) (value : Ipv4Addr) :
    ((host.setNic k nic).upsert ⟨ipv4 0 0 0 0, ipv4 0 0 0 0, value, nicId, 100⟩).Kept nicId k := by
  generalize route : (⟨ipv4 0 0 0 0, ipv4 0 0 0 0, value, nicId, 100⟩ : Route) = rt
  have indirect : ¬rt.Direct nicId := by
    rw [← route]
    rintro ⟨-, -, zero⟩
    cases zero
  -- it is not directly connected itself
  have stays (r : Route) (now : ((host.setNic k nic).upsert rt).Connected nicId r) : host.Connected nicId r := by
    obtain ⟨held, direct⟩ := now
    rw [upsert_routes] at held
    rcases kept.distinct.holds_of_upsert held with rfl | before
    · exact absurd direct indirect
    · exact ⟨before, direct⟩
  refine ⟨(getNic_setNic same nicId).trans kept.found, ?_, fun r r' here there => kept.alike r r' (stays r here) (stays r' there),
    fun addressed masked r => ?_⟩
  · rw [upsert_routes]
    exact kept.distinct.upsert _
  · have here : ((host.setNic k nic).upsert rt).nics k = nic := update_self ..
    rw [here, network.1] at addressed
    rw [here, network.2] at masked
    rw [here, network.1, network.2]
    refine ⟨fun now => (kept.exact addressed masked r).mp (stays r now), fun own => ?_⟩
    obtain ⟨held, direct⟩ := (kept.exact addressed masked r).mpr own
    refine ⟨?_, direct⟩
    rw [upsert_routes]
    -- and it does not replace the one to the network, whose netmask is not 0
    refine (kept.distinct.holds_upsert_of_ne fun equal => masked ?_).mpr held
    rw [own, ← route] at equal
    exact (Prod.mk.inj (Prod.mk.inj equal).2).1

end

theorem Host.Kept.configure (kept : host.Kept nicId k) {field : NicConfigField} {value : Nat}
    (settles : host.Settles nicId k field value) : (configureNic host nicId field value).Kept nicId k := by
  simp only [configureNic, kept.found]
  cases field with
  | address =>
    dsimp only
    split
    next masked => exact kept.connect { host.nics k with addr := BitVec.ofNat 32 value } ⟨rfl, rfl⟩ (settles masked)
    next zero => exact kept.set ⟨rfl, rfl⟩ (.inr (not_not.mp zero))
  | netmask =>
    dsimp only
    split
    next addressed => exact kept.connect { host.nics k with netmask := BitVec.ofNat 32 value } ⟨rfl, rfl⟩ (settles addressed)
    next zero => exact kept.set ⟨rfl, rfl⟩ (.inl (not_not.mp zero))
  | gateway => exact kept.gateway { host.nics k with defaultGateway := BitVec.ofNat 32 value } ⟨rfl, rfl⟩ ⟨rfl, rfl⟩ _
  | metric => exact kept

/-- The card has been registered with a number that no other card and no route has. -/
theorem kept_of_register {rts : List Route} (table : host.routes = rts.foldl routeUpsert fun _ => none) {driver : Driver}
    {random : BitVec 32} (cards : ∀ i < maxNics, (host.nics i).used = true → (host.nics i).nicId ≠ random.toInt)
    (routes : ∀ r ∈ rts, r.nicId ≠ random.toInt) (found : getNic (registerNic host driver random).1 random.toInt = some k) :
    (registerNic host driver random).1.Kept random.toInt k := by
  have built : host.routes = rts.foldl (KeyedTable.upsert Route.key routingTableMaxEntreis) fun _ => none := by
    rw [table]
    congr 1
    funext routes rt
    exact routeUpsert_eq routes rt
  have distinct : KeyedTable.Distinct Route.key routingTableMaxEntreis host.routes := by
    rw [built]
    exact KeyedTable.distinct_of_history rts
  have inside : k < maxNics := List.mem_range.mp (List.mem_of_find?_eq_some found)
  obtain ⟨used, number⟩ : ((registerNic host driver random).1.nics k).used = true ∧
      ((registerNic host driver random).1.nics k).nicId = random.toInt := by simpa using List.find?_some found
  revert used number found
  rw [registerNic]
  split
  next i _ =>
    intro found used number
    -- the card with the number is the new one
    obtain rfl : k = i := by
      by_contra other
      have old := cards k inside
      simp only [Host.upsert, Host.setNic, update_of_ne other] at used number
      exact old used number
    have none (r : Route) : ¬((host.setNic k ⟨⟨random.toInt, ipv4 0 0 0 0, some driver⟩, true, ipv4 0 0 0 0, ipv4 0 0 0 0⟩).upsert
        ⟨ipv4 255 255 255 255, ipv4 255 255 255 255, ipv4 0 0 0 0, random.toInt, 100⟩).Connected random.toInt r := by
      rintro ⟨held, direct⟩
      rw [upsert_routes] at held
      rcases distinct.holds_of_upsert held with rfl | before
      · exact absurd direct.2.2 (by simp)
      · rw [built] at before
        exact routes r (KeyedTable.mem_of_holds before) direct.1
    refine ⟨found, ?_, fun r _ here => absurd here (none r), fun addressed => ?_⟩
    · rw [upsert_routes]
      exact distinct.upsert _
    · exact absurd (by simp [Host.upsert, Host.setNic, ipv4]) addressed
  next =>
    -- `g_nics` was full, and nothing was registered
    intro _ used number
    exact absurd number (cards k inside used)

end Configure

/-- After a card has been registered under a new number, each setting of an address or a netmask that adds a route
must be to the network that the card has a route to already. Then there is one route, and the right one. -/
theorem one_connected_route (rts : List Route) (host host' : Host) (driver : Driver) (random : BitVec 32) (k : Nat)
    (table : host.routes = rts.foldl routeUpsert fun _ => none)
    (cards : ∀ i < maxNics, (host.nics i).used = true → (host.nics i).nicId ≠ random.toInt)
    (routes : ∀ r ∈ rts, r.nicId ≠ random.toInt) (found : getNic (registerNic host driver random).1 random.toInt = some k)
    (run : ReflTransGen (ConfigureStep random.toInt k) (registerNic host driver random).1 host') :
    host'.OneConnected random.toInt k := by
  have start := kept_of_register table cards routes found
  have kept := invariant_of_run (fun host => host.Kept random.toInt k)
    (fun _ _ kept step => by
      obtain ⟨field, value, rfl, settles⟩ := step
      exact kept.configure settles) run start
  exact kept.oneConnected

def bareHost : Host := ⟨fun _ => ⟨⟨0, 0, none⟩, false, 0, 0⟩, fun _ => none⟩

def cardHost : Host := (registerNic bareHost .e1000 5).1

def addressedHost : Host :=
  configureNic (configureNic cardHost 5 .address (ipv4 10 0 2 15).toNat) 5 .netmask (ipv4 255 255 255 0).toNat

/-- When the address is moved to another network, the route to the old one is left. -/
theorem moved_address_keeps_route :
    (configureNic addressedHost 5 .address (ipv4 10 0 3 15).toNat).Connected 5 (connectedRoute (ipv4 10 0 2 15) (ipv4 255 255 255 0) 5) ∧
    (configureNic addressedHost 5 .address (ipv4 10 0 3 15).toNat).Connected 5 (connectedRoute (ipv4 10 0 3 15) (ipv4 255 255 255 0) 5) ∧
    ¬(configureNic addressedHost 5 .address (ipv4 10 0 3 15).toNat).OneConnected 5 0 := by
  generalize moved : configureNic addressedHost 5 .address (ipv4 10 0 3 15).toNat = host
  have first : host.routes 1 = some (connectedRoute (ipv4 10 0 2 15) (ipv4 255 255 255 0) 5) := by
    rw [← moved]
    decide +kernel
  have second : host.routes 2 = some (connectedRoute (ipv4 10 0 3 15) (ipv4 255 255 255 0) 5) := by
    rw [← moved]
    decide +kernel
  refine ⟨⟨⟨1, by decide, first⟩, rfl, rfl, rfl⟩, ⟨⟨2, by decide, second⟩, rfl, rfl, rfl⟩, fun one => ?_⟩
  have same := one.single 1 (by decide) 2 (by decide) _ _ first second ⟨rfl, rfl, rfl⟩ ⟨rfl, rfl, rfl⟩
  cases same

/-- An address and then a netmask make one route. -/
theorem first_address_connects : addressedHost.OneConnected 5 0 ∧
    addressedHost.Connected 5 (connectedRoute (ipv4 10 0 2 15) (ipv4 255 255 255 0) 5) := by
  have unconnected (r : Route) : ¬(configureNic cardHost 5 .address (ipv4 10 0 2 15).toNat).Connected 5 r := by
    rintro ⟨⟨i, inside, held⟩, -, -, metric⟩
    have others : ∀ i < routingTableMaxEntreis, ∀ r ∈ (configureNic cardHost 5 .address (ipv4 10 0 2 15).toNat).routes i,
        r.metric ≠ 0 := by decide +kernel
    exact others i inside r held metric
  have room : (configureNic cardHost 5 .address (ipv4 10 0 2 15).toNat).routes 1 = none := by decide +kernel
  have address : ConfigureStep 5 0 cardHost (configureNic cardHost 5 .address (ipv4 10 0 2 15).toNat) :=
    ⟨.address, _, rfl, fun masked => absurd (by decide +kernel) masked⟩
  have netmask : ConfigureStep 5 0 (configureNic cardHost 5 .address (ipv4 10 0 2 15).toNat) addressedHost :=
    ⟨.netmask, _, rfl, fun _ => ⟨fun r connected => absurd connected (unconnected r), .inr ⟨1, by decide, room⟩⟩⟩
  have run : ReflTransGen (ConfigureStep 5 0) cardHost addressedHost := (ReflTransGen.single address).tail netmask
  have one := one_connected_route [] bareHost addressedHost .e1000 5 0 rfl (fun _ _ used => absurd used (by simp [bareHost]))
    (by simp) (by decide +kernel) run
  refine ⟨one, ?_⟩
  exact (one.exact (by decide +kernel) (by decide +kernel) _).mpr (by decide +kernel)

inductive HostStep : Host → Host → Prop where
  | register (host : Host) (driver : Driver) (random : BitVec 32) : HostStep host (registerNic host driver random).1
  | configure (host : Host) (nicId : Int) (field : NicConfigField) (value : Nat) : HostStep host (configureNic host nicId field value)

def Host.Numbered (host : Host) : Prop := ∀ i, (host.nics i).driver = none → (host.nics i).nicId = 0

/-- A packet without options goes to the driver of the registered card that has the number in the best route, and
the index of the card is one of `g_nics`. -/
def Stack.Delivers (net : Stack) (dst : Ipv4Addr) (protocol : Byte) (payload : List Byte) (len : BitVec 16) : Prop :=
  ∃ route i net' sent, findBestRoute net dst = .ok route ∧ chooseNic net dst ⟨0, 0⟩ = .ok (some i, route) ∧
    0 ≤ i ∧ i < maxNics ∧ (net.nics i.toNat).nicId = route.nicId ∧ (net.nics i.toNat).driver = some sent.driver ∧
    ipSend net dst protocol payload len ⟨0, 0⟩ = .ok (net', some sent)

/-- The best route is found, its card has its own index for a number, other than 0, and the packet is not too long. -/
def Stack.OwnIndex (net : Stack) (dst : Ipv4Addr) (len : BitVec 16) : Prop :=
  ∃ route, findBestRoute net dst = .ok route ∧ 0 < route.nicId ∧ route.nicId < maxNics ∧
    (net.nics route.nicId.toNat).nicId = route.nicId ∧ 20 + len.toNat < 2 ^ 16

section Delivery

variable {host : Host} {net : Stack} {dst : Ipv4Addr} {route : Route}

private theorem Host.Numbered.setNic (numbered : host.Numbered) {k : Nat} {nic : NicEntry}
    (own : nic.driver = none → nic.nicId = 0) :
    (host.setNic k nic).Numbered := by
  intro i
  simp only [Host.setNic]
  by_cases here : i = k
  · subst here
    rw [update_self]
    exact own
  · rw [update_of_ne here]
    exact numbered i

theorem Host.Numbered.register (numbered : host.Numbered) (driver : Driver) (random : BitVec 32) :
    (registerNic host driver random).1.Numbered := by
  rw [registerNic]
  split
  next => exact numbered.setNic fun unset => by cases unset
  next => exact numbered

private theorem Host.Numbered.step (numbered : host.Numbered) {host' : Host} (step : HostStep host host') : host'.Numbered := by
  cases step with
  | register driver random => exact numbered.register driver random
  | configure nicId field value =>
    rw [configureNic]
    split
    next => exact numbered
    next i _ =>
      cases field with
      | address =>
        dsimp only
        split <;> exact numbered.setNic (numbered i)
      | netmask =>
        dsimp only
        split <;> exact numbered.setNic (numbered i)
      | gateway => exact numbered.setNic (numbered i)
      | metric => exact numbered

theorem Host.Numbered.init {random : BitVec 32} (numbered : host.Numbered) {host' : Host}
    (start : networkingInit host random = .ok host') : host'.Numbered := by
  have registered := numbered.register .loopback random
  simp only [networkingInit] at start
  split at start
  next => cases start
  next i _ =>
    cases start
    exact registered.setNic (registered i)

theorem chooseNic_empty (found : findBestRoute net dst = .ok route) : chooseNic net dst ⟨0, 0⟩ = .ok (some route.nicId, route) := by
  simp [chooseNic, found]

theorem ipSend_of_card (found : findBestRoute net dst = .ok route) (protocol : Byte) (payload : List Byte) {len : BitVec 16}
    {driver : Driver} (numbered : route.nicId ≠ 0) (inside : 0 ≤ route.nicId ∧ route.nicId < maxNics)
    (fits : 20 + len.toNat < 2 ^ 16) (driven : (net.nics route.nicId.toNat).driver = some driver) :
    ∃ net' sent, ipSend net dst protocol payload len ⟨0, 0⟩ = .ok (net', some sent) ∧ sent.driver = driver := by
  obtain ⟨net', sent, ret, same, -⟩ := ipSend_routed (chooseNic_empty found) numbered (if_pos inside) driven protocol payload fits
  exact ⟨net', sent, ret, same⟩

theorem of_ipSend {net' : Stack} {sent : Sent} {protocol : Byte} {payload : List Byte} {len : BitVec 16}
    (found : findBestRoute net dst = .ok route) (out : ipSend net dst protocol payload len ⟨0, 0⟩ = .ok (net', some sent)) :
    route.nicId ≠ 0 ∧ 20 + len.toNat < 2 ^ 16 := by
  refine ⟨?_, (ipSend_sent out).1⟩
  intro zero
  simp only [ipSend, chooseNic_empty found, Outcome.ok_bind, if_pos zero] at out
  cases out

theorem Host.Numbered.delivers_iff (numbered : host.Numbered) (ipId : BitVec 16) (conns : Nat → TcpActiveSocket) (dst : Ipv4Addr)
    (protocol : Byte) (payload : List Byte) (len : BitVec 16) :
    (host.stack ipId conns).Delivers dst protocol payload len ↔ (host.stack ipId conns).OwnIndex dst len := by
  constructor
  · rintro ⟨route, i, net', sent, found, chosen, low, high, same, -, out⟩
    rw [chooseNic_empty found] at chosen
    cases chosen
    obtain ⟨nonzero, fits⟩ := of_ipSend found out
    exact ⟨route, found, by omega, high, same, fits⟩
  · rintro ⟨route, found, pos, high, same, fits⟩
    obtain ⟨driver, driven⟩ : ∃ driver, ((host.stack ipId conns).nics route.nicId.toNat).driver = some driver := by
      -- a card without a driver has the number 0, and the number of this one is positive
      refine Option.ne_none_iff_exists'.mp fun unset => ?_
      have zero := numbered route.nicId.toNat unset
      rw [show (host.nics route.nicId.toNat).nicId = route.nicId from same] at zero
      omega
    obtain ⟨net', sent, out, driver_eq⟩ := ipSend_of_card found protocol payload (by omega) ⟨by omega, high⟩ fits driven
    refine ⟨route, route.nicId, net', sent, found, chooseNic_empty found, by omega, high, same, ?_, out⟩
    rw [driven, driver_eq]

end Delivery

/-- The number of a card is drawn at random and taken for its index. -/
theorem packet_leaves_by_own_card_iff (random : BitVec 32) (host₀ host : Host) (start : networkingInit bareHost random = .ok host₀)
    (run : ReflTransGen HostStep host₀ host) (ipId : BitVec 16) (conns : Nat → TcpActiveSocket) (dst : Ipv4Addr) (protocol : Byte)
    (payload : List Byte) (len : BitVec 16) :
    (host.stack ipId conns).Delivers dst protocol payload len ↔ (host.stack ipId conns).OwnIndex dst len := by
  have bare : bareHost.Numbered := fun _ _ => rfl
  have numbered := invariant_of_run Host.Numbered (fun _ _ numbered step => numbered.step step) run (bare.init start)
  exact numbered.delivers_iff ipId conns dst protocol payload len

def loopbackHost : Host :=
  match networkingInit bareHost 777 with
  | .ok host => host
  | .error _ => bareHost

def ethernetHost (random : BitVec 32) : Host :=
  let host := (registerNic loopbackHost .e1000 random).1
  let host := configureNic host random.toInt .address (ipv4 10 0 2 15).toNat
  configureNic host random.toInt .netmask (ipv4 255 255 255 0).toNat

theorem ethernetHost_run (random : BitVec 32) : ReflTransGen HostStep loopbackHost (ethernetHost random) := by
  have registered := ReflTransGen.single (HostStep.register loopbackHost .e1000 random)
  have addressed := registered.tail (.configure _ random.toInt .address (ipv4 10 0 2 15).toNat)
  exact addressed.tail (.configure _ random.toInt .netmask (ipv4 255 255 255 0).toNat)

def noConnection : TcpActiveSocket := ⟨.closed, 0, 0, 0, 0, 0, 0, fun _ => 0, 0, 0⟩

def gatewayDriver (random : BitVec 32) : Outcome (Option Driver) := do
  let (_, sent) ← ipSend ((ethernetHost random).stack 0 fun _ => noConnection) (ipv4 10 0 2 2) protocolTcp [] 0 ⟨0, 0⟩
  pure (sent.map Sent.driver)

/-- With the number 5 for the card, `g_nics[5]` is read. -/
theorem card_number_outside : networkingInit bareHost 777 = .ok loopbackHost ∧ ReflTransGen HostStep loopbackHost (ethernetHost 5) ∧
    gatewayDriver 5 = .error (.outOfBounds 5) ∧
    ¬((ethernetHost 5).stack 0 fun _ => noConnection).Delivers (ipv4 10 0 2 2) protocolTcp [] 0 := by
  have outside : gatewayDriver 5 = .error (.outOfBounds 5) := by decide +kernel
  refine ⟨rfl, ethernetHost_run 5, outside, ?_⟩
  rintro ⟨_, _, net', sent, -, -, -, -, -, -, out⟩
  rw [gatewayDriver, out] at outside
  cases outside

/-- With the number 1 for the card, which is its index, packets leave by it. -/
theorem card_number_own_index : ((ethernetHost 1).stack 0 fun _ => noConnection).Delivers (ipv4 10 0 2 2) protocolTcp [] 0 := by
  have best : findBestRoute ((ethernetHost 1).stack 0 fun _ => noConnection) (ipv4 10 0 2 2) =
      .ok (connectedRoute (ipv4 10 0 2 15) (ipv4 255 255 255 0) 1) := by decide +kernel
  refine (packet_leaves_by_own_card_iff 777 loopbackHost (ethernetHost 1) rfl (ethernetHost_run 1) 0 (fun _ => noConnection)
    (ipv4 10 0 2 2) protocolTcp [] 0).mpr ⟨_, best, by decide, by decide, ?_, by decide⟩
  decide +kernel

end Xos.Net
