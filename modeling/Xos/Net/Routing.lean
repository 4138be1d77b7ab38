import Xos.Lib.KeyedTable
import Xos.Net.Config

/-!
# The routing table

As a map, the table has one route for a destination, a netmask and a card. As an order, matching routes are compared by
their netmasks as little-endian numbers.
-/
namespace Xos.Net

open Lib KeyedTable

def Route.key (r : Route) : Ipv4Addr × Ipv4Addr × Int := (r.destination, r.netmask, r.nicId)

theorem routeUpsert_eq (routes : Nat → Option Route) (rt : Route) :
    routeUpsert routes rt = upsert Route.key routingTableMaxEntreis routes rt := by
  have tested (r : Route) : decide (r.key = rt.key) =
      decide (r.destination = rt.destination ∧ r.netmask = rt.netmask ∧ r.nicId = rt.nicId) := by
    simp [Route.key]
  simp only [upsert, slotOf, tested]
  rfl

/-- The used entries have distinct keys. They are the last routes that came with their keys, as long as no
more keys than entries have come. -/
theorem table_is_last_upserted (rts : List Route) :
    KeyedTable.Distinct Route.key routingTableMaxEntreis (rts.foldl routeUpsert fun _ => none) ∧
      ((rts.map Route.key).toFinset.card ≤ routingTableMaxEntreis → ∀ r,
        KeyedTable.Holds routingTableMaxEntreis (rts.foldl routeUpsert fun _ => none) r ↔
          last Route.key rts r.key = some r) := by
  have same : routeUpsert = upsert Route.key routingTableMaxEntreis := by
    funext routes rt
    exact routeUpsert_eq routes rt
  rw [same]
  exact ⟨distinct_of_history rts, fun few r => holds_iff_last rts few r⟩

def subnetRoute (metric : Int) : Route := ⟨ipv4 10 0 2 0, ipv4 255 255 255 0, 0, 1, metric⟩

def gatewayRoute : Route := ⟨0, 0, ipv4 10 0 2 2, 1, 100⟩

/-- Of two routes with one key the second one is left. -/
theorem second_metric_held : KeyedTable.Holds routingTableMaxEntreis
      ([subnetRoute 5, gatewayRoute, subnetRoute 0].foldl routeUpsert fun _ => none) (subnetRoute 0) ∧
    ¬KeyedTable.Holds routingTableMaxEntreis
      ([subnetRoute 5, gatewayRoute, subnetRoute 0].foldl routeUpsert fun _ => none) (subnetRoute 5) := by
  have few : ([subnetRoute 5, gatewayRoute, subnetRoute 0].map Route.key).toFinset.card ≤ routingTableMaxEntreis := by
    decide +kernel
  have holds := (table_is_last_upserted [subnetRoute 5, gatewayRoute, subnetRoute 0]).2 few
  rw [holds, holds]
  decide +kernel

def Route.Matches (r : Route) (dst : Ipv4Addr) : Prop := dst &&& r.netmask = r.destination &&& r.netmask

instance (r : Route) (dst : Ipv4Addr) : Decidable (r.Matches dst) := inferInstanceAs (Decidable (_ = _))

def prefixMask (p : Nat) : Ipv4Addr := htonl (BitVec.allOnes 32 <<< (32 - p))

def prefixLength (netmask : Ipv4Addr) : Nat := (List.range 32).countP netmask.getLsbD

def Stack.Contiguous (net : Stack) : Prop :=
  ∀ i < routingTableMaxEntreis, ∀ r, net.routes i = some r → ∃ p ≤ 32, r.netmask = prefixMask p

def Stack.Entry (net : Stack) (dst : Ipv4Addr) (i : Nat) (r : Route) : Prop := net.routes i = some r ∧ r.Matches dst

/-- The route has the longest prefix of the entries that match, and the lowest metric of those. -/
structure Stack.Best (net : Stack) (dst : Ipv4Addr) (r : Route) : Prop where
  entry : ∃ i < routingTableMaxEntreis, net.Entry dst i r
  longest : ∀ i < routingTableMaxEntreis, ∀ other, net.Entry dst i other → prefixLength other.netmask ≤ prefixLength r.netmask
  lowest : ∀ i < routingTableMaxEntreis, ∀ other, net.Entry dst i other →
    prefixLength other.netmask = prefixLength r.netmask → r.metric ≤ other.metric

/-- `find_best_route` copies out the best route, or leaves `route_out` when no entry matches. -/
def Stack.SelectsBest (net : Stack) (dst : Ipv4Addr) : Prop :=
  ∀ out, ∃ r, findBestRouteInto net dst out = .ok r ∧
    (net.Best dst r ∨ (∀ i < routingTableMaxEntreis, ∀ other, ¬net.Entry dst i other) ∧ r = out)

/-- In front of each default route there is an entry that matches and is no default route. -/
def Stack.DefaultsCovered (net : Stack) (dst : Ipv4Addr) (n : Nat) : Prop :=
  ∀ i < n, ∀ r, net.routes i = some r → r.netmask = 0 → ∃ j < i, ∃ other, net.Entry dst j other ∧ other.netmask ≠ 0

theorem prefixMask_lt : ∀ p < 33, ∀ q < 33, prefixMask p < prefixMask q ↔ p < q := by decide +kernel

theorem prefixLength_prefixMask : ∀ p < 33, prefixLength (prefixMask p) = p := by decide +kernel

theorem prefixLength_le {a b : Ipv4Addr} (left : ∃ p ≤ 32, a = prefixMask p) (right : ∃ q ≤ 32, b = prefixMask q) :
    (a ≤ b ↔ prefixLength a ≤ prefixLength b) ∧ (a = b ↔ prefixLength a = prefixLength b) := by
  obtain ⟨p, short, rfl⟩ := left
  obtain ⟨q, bound, rfl⟩ := right
  rw [prefixLength_prefixMask p (by omega), prefixLength_prefixMask q (by omega), ← BitVec.not_lt,
    prefixMask_lt q (by omega) p (by omega)]
  refine ⟨Nat.not_lt, fun same => ?_, fun same => by rw [same]⟩
  have length := congrArg prefixLength same
  rwa [prefixLength_prefixMask p (by omega), prefixLength_prefixMask q (by omega)] at length

variable {r : Route}

section Scan

variable {net : Stack} {dst : Ipv4Addr} {i : Nat}

/-- The best route of the first `i` entries by their masks as numbers. -/
structure Leads (net : Stack) (dst : Ipv4Addr) (i : Nat) (r : Route) : Prop where
  entry : ∃ j < i, net.Entry dst j r
  masked : r.netmask ≠ 0
  largest : ∀ j < i, ∀ other, net.Entry dst j other → other.netmask ≤ r.netmask
  lowest : ∀ j < i, ∀ other, net.Entry dst j other → other.netmask = r.netmask → r.metric ≤ other.metric

/-- The state of the scan in front of entry `i`: there is a best route, or nothing has matched. -/
inductive Scanned (net : Stack) (dst : Ipv4Addr) (i : Nat) : Option Route × Ipv4Addr → Prop
  | found {r : Route} (leads : Leads net dst i r) : Scanned net dst i (some r, r.netmask)
  | nothing (unmatched : ∀ j < i, ∀ other, ¬net.Entry dst j other) : Scanned net dst i (none, 0)

theorem matches_of_default (default : r.netmask = 0) (dst : Ipv4Addr) : r.Matches dst := by
  simp [Route.Matches, default]

private theorem Scanned.skip {best : Option Route × Ipv4Addr} (scanned : Scanned net dst i best)
    (unmatched : ∀ r, ¬net.Entry dst i r) : Scanned net dst (i + 1) best := by
  have earlier {j : Nat} {other : Route} (below : j < i + 1) (entry : net.Entry dst j other) : j < i := by
    rcases Nat.lt_succ_iff_lt_or_eq.mp below with before | rfl
    · exact before
    · exact absurd entry (unmatched other)
  cases scanned with
  | found leads =>
    obtain ⟨⟨j, before, entry⟩, masked, largest, lowest⟩ := leads
    apply Scanned.found
    exact ⟨⟨j, by omega, entry⟩, masked, fun j below other entry => largest j (earlier below entry) other entry,
      fun j below other entry => lowest j (earlier below entry) other entry⟩
  | nothing nowhere => exact .nothing fun j below other entry => nowhere j (earlier below entry) other entry

private theorem Scanned.take (entry : net.Entry dst i r) (masked : r.netmask ≠ 0)
    (larger : ∀ j < i, ∀ other, net.Entry dst j other → other.netmask ≤ r.netmask ∧ (other.netmask = r.netmask → r.metric ≤ other.metric)) :
    Scanned net dst (i + 1) (some r, r.netmask) := by
  apply Scanned.found
  refine ⟨⟨i, by omega, entry⟩, masked, fun j below other found => ?_, fun j below other found same => ?_⟩
  · rcases Nat.lt_succ_iff_lt_or_eq.mp below with before | rfl
    · exact (larger j before other found).1
    · rw [Option.some.inj (found.1.symm.trans entry.1)]
      exact BitVec.le_refl _
  · rcases Nat.lt_succ_iff_lt_or_eq.mp below with before | rfl
    · exact (larger j before other found).2 same
    · rw [Option.some.inj (found.1.symm.trans entry.1)]

private theorem Leads.keep {known : Route} (leads : Leads net dst i known) (entry : net.Entry dst i r)
    (smaller : r.netmask ≤ known.netmask) (worse : r.netmask = known.netmask → known.metric ≤ r.metric) :
    Scanned net dst (i + 1) (some known, known.netmask) := by
  obtain ⟨⟨j, before, found⟩, masked, largest, lowest⟩ := leads
  apply Scanned.found
  refine ⟨⟨j, by omega, found⟩, masked, fun j below other found => ?_, fun j below other found same => ?_⟩
  · rcases Nat.lt_succ_iff_lt_or_eq.mp below with before | rfl
    · exact largest j before other found
    · rw [Option.some.inj (found.1.symm.trans entry.1)]
      exact smaller
  · rcases Nat.lt_succ_iff_lt_or_eq.mp below with before | rfl
    · exact lowest j before other found same
    · obtain rfl := Option.some.inj (found.1.symm.trans entry.1)
      exact worse same

theorem considerRoute_miss (unmatched : ∀ r, ¬net.Entry dst i r) (best : Option Route × Ipv4Addr) :
    considerRoute net (fun _ => true) dst i best = .ok best := by
  rw [considerRoute]
  split
  next => rfl
  next r used =>
    have miss : ¬dst &&& r.netmask = r.destination &&& r.netmask := fun hit => unmatched r ⟨used, hit⟩
    simp only [Bool.not_true, Bool.false_eq_true, if_false, if_neg miss, Outcome.pure_eq_ok]

theorem considerRoute_entry (entry : net.Entry dst i r) (best : Option Route × Ipv4Addr) :
    considerRoute net (fun _ => true) dst i best =
      if best.2 < r.netmask then .ok (some r, r.netmask)
      else if r.netmask = best.2 then
        match best.1 with
        | none => .error (.outOfBounds 0)
        | some known => .ok (if r.metric < known.metric then (some r, r.netmask) else best)
      else .ok best := by
  have hit : dst &&& r.netmask = r.destination &&& r.netmask := entry.2
  rw [considerRoute, entry.1]
  simp only [Bool.not_true, Bool.false_eq_true, if_false, if_pos hit]
  rfl

private theorem Leads.step {known : Route} (leads : Leads net dst i known) (entry : net.Entry dst i r) :
    ∃ best', considerRoute net (fun _ => true) dst i (some known, known.netmask) = .ok best' ∧ Scanned net dst (i + 1) best' := by
  rw [considerRoute_entry entry]
  -- `largest` and `lowest` of the route so far carry over to the new one in the two cases that take it
  by_cases larger : known.netmask < r.netmask
  · rw [if_pos larger]
    refine ⟨_, rfl, Scanned.take entry ?_ fun j before other found => ?_⟩
    · intro zero
      rw [zero] at larger
      exact absurd larger BitVec.not_lt_zero
    · have smaller := leads.largest j before other found
      have below : other.netmask < r.netmask := by bv_omega
      exact ⟨BitVec.le_of_lt below, fun same => absurd (same ▸ below) (BitVec.lt_irrefl _)⟩
  rw [if_neg larger]
  have smaller := BitVec.not_lt.mp larger
  by_cases equal : r.netmask = known.netmask
  · rw [if_pos equal]
    refine ⟨_, rfl, ?_⟩
    by_cases lower : r.metric < known.metric
    · rw [if_pos lower]
      refine Scanned.take entry (equal ▸ leads.masked) fun j before other found => ?_
      rw [equal]
      exact ⟨leads.largest j before other found, fun same => lower.le.trans (leads.lowest j before other found same)⟩
    · rw [if_neg lower]
      exact leads.keep entry smaller fun _ => not_lt.mp lower
  · rw [if_neg equal]
    exact ⟨_, rfl, leads.keep entry smaller fun same => absurd same equal⟩

theorem first_step (nowhere : ∀ j < i, ∀ other, ¬net.Entry dst j other) (entry : net.Entry dst i r) :
    r.netmask ≠ 0 ∧ considerRoute net (fun _ => true) dst i (none, 0) = .ok (some r, r.netmask) ∧
        Scanned net dst (i + 1) (some r, r.netmask) ∨
      r.netmask = 0 ∧ considerRoute net (fun _ => true) dst i (none, 0) = .error (.outOfBounds 0) := by
  rw [considerRoute_entry entry]
  by_cases zero : r.netmask = 0
  · -- the scan starts with netmask 0 and no route, so this counts as a tie with it
    rw [zero, if_neg (BitVec.lt_irrefl _), if_pos rfl]
    exact .inr ⟨rfl, rfl⟩
  · have larger : 0 < r.netmask := by bv_omega
    rw [if_pos larger]
    exact .inl ⟨zero, rfl, Scanned.take entry zero fun j before other found => absurd found (nowhere j before other)⟩

private theorem Stack.DefaultsCovered.succ (covered : net.DefaultsCovered dst i)
    (here : ∀ r, net.Entry dst i r → r.netmask = 0 → ∃ j < i, ∃ other, net.Entry dst j other ∧ other.netmask ≠ 0) :
    net.DefaultsCovered dst (i + 1) := by
  intro j below r used zero
  rcases Nat.lt_succ_iff_lt_or_eq.mp below with before | rfl
  · exact covered j before r used zero
  · exact here r ⟨used, matches_of_default zero dst⟩ zero

/-- One entry. The scan stops at a default route that is not covered. -/
private theorem Scanned.step {best : Option Route × Ipv4Addr} (scanned : Scanned net dst i best)
    (covered : net.DefaultsCovered dst i) :
    (∃ best', considerRoute net (fun _ => true) dst i best = .ok best' ∧ Scanned net dst (i + 1) best' ∧
        net.DefaultsCovered dst (i + 1)) ∨
      ∃ stop, considerRoute net (fun _ => true) dst i best = .error stop ∧ ¬net.DefaultsCovered dst (i + 1) := by
  by_cases matched : ∃ r, net.Entry dst i r
  · obtain ⟨r, entry⟩ := matched
    cases scanned with
    | found leads =>
      -- a best route has a netmask other than 0, so it covers a default route here
      obtain ⟨best', ret, scanned⟩ := leads.step entry
      obtain ⟨j, before, found⟩ := leads.entry
      exact .inl ⟨best', ret, scanned, covered.succ fun _ _ _ => ⟨j, before, _, found, leads.masked⟩⟩
    | nothing nowhere =>
      rcases first_step nowhere entry with ⟨masked, ret, scanned⟩ | ⟨zero, stopped⟩
      · refine .inl ⟨_, ret, scanned, covered.succ fun other again zero => absurd zero ?_⟩
        rwa [Option.some.inj (again.1.symm.trans entry.1)]
      · refine .inr ⟨_, stopped, fun all => ?_⟩
        obtain ⟨j, before, other, found, -⟩ := all i (by omega) r entry.1 zero
        exact nowhere j before other found
  · have unmatched : ∀ r, ¬net.Entry dst i r := fun r entry => matched ⟨r, entry⟩
    refine .inl ⟨best, considerRoute_miss unmatched best, scanned.skip unmatched, covered.succ fun r entry => ?_⟩
    exact absurd entry (unmatched r)

private theorem scan (net : Stack) (dst : Ipv4Addr) :
    (∃ best, Outcome.forRange (considerRoute net (fun _ => true) dst) routingTableMaxEntreis 0 (none, 0) = .ok best ∧
        Scanned net dst routingTableMaxEntreis best ∧ net.DefaultsCovered dst routingTableMaxEntreis) ∨
      ∃ stop, Outcome.forRange (considerRoute net (fun _ => true) dst) routingTableMaxEntreis 0 (none, 0) = .error stop ∧
        ¬net.DefaultsCovered dst routingTableMaxEntreis := by
  apply Outcome.forRange_rule (fun i best => Scanned net dst i best ∧ net.DefaultsCovered dst i)
    (fun _ => ¬net.DefaultsCovered dst routingTableMaxEntreis) (Nat.zero_add _)
  · intro i best _ inside ⟨scanned, covered⟩
    rcases scanned.step covered with next | ⟨stop, stopped, uncovered⟩
    · exact .inl next
    · exact .inr ⟨stop, stopped, fun all => uncovered fun j below => all j (by omega)⟩
  · exact ⟨.nothing fun j before => absurd before (by omega), fun j before => absurd before (by omega)⟩

end Scan

theorem Leads.best {net : Stack} {dst : Ipv4Addr} (contiguous : net.Contiguous)
    (leads : Leads net dst routingTableMaxEntreis r) : net.Best dst r := by
  obtain ⟨entry, -, largest, lowest⟩ := leads
  obtain ⟨i, inside, own⟩ := entry
  have mask := contiguous i inside r own.1
  refine ⟨⟨i, inside, own⟩, fun j below other found => ?_, fun j below other found same => ?_⟩
  · exact (prefixLength_le (contiguous j below other found.1) mask).1.mp (largest j below other found)
  · exact lowest j below other found ((prefixLength_le (contiguous j below other found.1) mask).2.mpr same)

/-- `find_best_route` does its work for a table and a destination just when it meets no default route before
an entry that matches with a longer prefix. -/
theorem best_route_iff (net : Stack) (dst : Ipv4Addr) (contiguous : net.Contiguous) :
    net.SelectsBest dst ↔ net.DefaultsCovered dst routingTableMaxEntreis := by
  rcases scan net dst with ⟨best, returned, scanned, covered⟩ | ⟨stop, stopped, uncovered⟩
  · refine iff_of_true (fun out => ⟨best.1.getD out, ?_, ?_⟩) covered
    · rw [findBestRouteInto, findRoute, returned]
      rfl
    · cases scanned with
      | found leads => exact .inl (leads.best contiguous)
      | nothing unmatched => exact .inr ⟨unmatched, rfl⟩
  · refine iff_of_false (fun selects => ?_) uncovered
    obtain ⟨r, returned, -⟩ := selects noRoute
    rw [findBestRouteInto, findRoute, stopped] at returned
    cases returned

/-- The table in which the used flags of the routes that are not `wanted` are cleared. -/
def Stack.onlyRoutes (net : Stack) (wanted : Route → Bool) : Stack :=
  { net with routes := fun i => (net.routes i).filter wanted }

/-- One round over the cleared table keeps the same best route as a round that passes over the other routes. -/
theorem considerRoute_onlyRoutes (net : Stack) (wanted : Route → Bool) (dst : Ipv4Addr) :
    considerRoute (net.onlyRoutes wanted) (fun _ => true) dst = considerRoute net wanted dst := by
  funext i best
  unfold considerRoute
  rw [show (net.onlyRoutes wanted).routes i = (net.routes i).filter wanted from rfl]
  cases net.routes i with
  | none => rfl
  | some r => cases h : wanted r <;> simp [Option.filter, h]

/-- `find_best_route_for_nic` is `find_best_route` on the table without the routes of other cards, also where the
metric of the best route is read before there is one. -/
theorem bestRouteForNic_eq (net : Stack) (nicId : BitVec 64) (dst : Ipv4Addr) (out : Route) :
    findBestRouteForNicInto net nicId dst out =
      findBestRouteInto (net.onlyRoutes fun r => decide (BitVec.ofInt 64 r.nicId = nicId)) dst out := by
  unfold findBestRouteForNicInto findBestRouteInto findRoute
  rw [considerRoute_onlyRoutes]

def withRoutes (rts : List Route) : Stack where
  nics := fun _ => ⟨0, 0, none⟩
  routes := fun i => rts[i]?
  ipId := 0
  conns := fun _ => ⟨.closed, 0, 0, 0, 0, 0, 0, fun _ => 0, 0, 0⟩

theorem withRoutes_contiguous {rts : List Route}
    (masks : ∀ r ∈ rts, ∃ p < 33, r.netmask = prefixMask p) : (withRoutes rts).Contiguous := by
  intro i _ r used
  obtain ⟨p, bound, mask⟩ := masks r (List.mem_of_getElem? used)
  exact ⟨p, by omega, mask⟩

/-- The default route is the only one that matches 8.8.8.8, and looking for it reads a metric through the null
pointer. -/
theorem default_route_not_chosen : (withRoutes [gatewayRoute]).Contiguous ∧
    (withRoutes [gatewayRoute]).Entry (ipv4 8 8 8 8) 0 gatewayRoute ∧
    findBestRouteInto (withRoutes [gatewayRoute]) (ipv4 8 8 8 8) noRoute = .error (.outOfBounds 0) ∧
    ¬(withRoutes [gatewayRoute]).SelectsBest (ipv4 8 8 8 8) := by
  have stopped : findBestRouteInto (withRoutes [gatewayRoute]) (ipv4 8 8 8 8) noRoute = .error (.outOfBounds 0) := by decide +kernel
  refine ⟨withRoutes_contiguous (by decide +kernel), ⟨rfl, by decide +kernel⟩, stopped, fun selects => ?_⟩
  obtain ⟨r, returned, -⟩ := selects noRoute
  rw [stopped] at returned
  cases returned

/-- Behind a route that matches the default route does no harm. -/
theorem subnet_route_chosen : (withRoutes [subnetRoute 0, gatewayRoute]).SelectsBest (ipv4 10 0 2 2) := by
  apply (best_route_iff _ _ (withRoutes_contiguous (by decide +kernel))).mpr
  intro i _ r used zero
  cases i with
  | zero =>
    rw [← Option.some.inj used] at zero
    exact absurd zero (by decide)
  | succ i => exact ⟨0, by omega, subnetRoute 0, ⟨rfl, by decide +kernel⟩, by decide⟩

end Xos.Net
