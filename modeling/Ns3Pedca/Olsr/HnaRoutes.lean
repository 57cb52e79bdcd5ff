import Ns3Pedca.Olsr.OlsrState
import Ns3Pedca.Runs

/-!
# Routes to the networks of gateways

The last part of `RoutingTableComputation` rebuilds the routes to the networks that gateways
announce. It clears the table first, in a loop whose bound shrinks with the table, so that the last
half of the routes are left (`clear_eq_drop`). Then every association adds the route through its
gateway, or replaces the route of its network if its gateway is nearer.

For one network the computation finds the nearest of the route that is left and those through the
gateways (`sub_foldl`). The table follows the associations, if and only if every route that is left
goes through a gateway, or through none as near as one of them (`follows_iff`).
-/

namespace Ns3Pedca.Olsr

/-- `AssociationTuple`. -/
structure AssociationTuple where
  gatewayAddr : Ipv4Address
  networkAddr : Ipv4Address
  netmask : Ipv4Address
  expirationTime : ℤ
  deriving DecidableEq

/-- `Association`. -/
structure Association where
  networkAddr : Ipv4Address
  netmask : Ipv4Address
  deriving DecidableEq

/-- `RoutingTableEntry`. -/
structure RoutingTableEntry where
  destAddr : Ipv4Address
  nextAddr : Ipv4Address
  interface : ℕ
  distance : ℕ
  deriving DecidableEq

/-- A network route of `Ipv4StaticRouting`, with its metric. -/
structure NetworkRoute where
  network : Association
  gateway : Ipv4Address
  interface : ℕ
  metric : ℕ
  deriving DecidableEq

/-- What the computation reads : the association set, the associations of the node itself, and its
routing table. -/
structure HnaInput where
  associationSet : List AssociationTuple
  associations : List Association
  lookup : Ipv4Address → Option RoutingTableEntry

/-! ## The computation -/

/-- The loop that clears the table, with a bound on its rounds. -/
def clearLoop : ℕ → ℕ → List NetworkRoute → List NetworkRoute
  | 0, _, t => t
  | rounds + 1, i, t => if i < t.length then clearLoop rounds (i + 1) (t.eraseIdx 0) else t

/-- The table is cleared. -/
def clear (t : List NetworkRoute) : List NetworkRoute :=
  clearLoop t.length 0 t

/-- `AddNetworkRouteTo`. -/
def addNetworkRouteTo (t : List NetworkRoute) (route : NetworkRoute) : List NetworkRoute :=
  if route ∈ t then t else t ++ [route]

/-- The route through the gateway of an association. -/
def routeThrough (tuple : AssociationTuple) (gatewayEntry : RoutingTableEntry) : NetworkRoute :=
  ⟨⟨tuple.networkAddr, tuple.netmask⟩, gatewayEntry.nextAddr, gatewayEntry.interface,
    gatewayEntry.distance⟩

/-- An association in the loop. -/
def addAssociation (input : HnaInput) (t : List NetworkRoute) (tuple : AssociationTuple) :
    List NetworkRoute :=
  if ⟨tuple.networkAddr, tuple.netmask⟩ ∈ input.associations then t
  else
    let routeIndex := t.findIdx fun route => route.network = ⟨tuple.networkAddr, tuple.netmask⟩
    (input.lookup tuple.gatewayAddr).elim t fun gatewayEntry =>
      t[routeIndex]?.elim (addNetworkRouteTo t (routeThrough tuple gatewayEntry)) fun route =>
        if route.metric > gatewayEntry.distance then
          addNetworkRouteTo (t.eraseIdx routeIndex) (routeThrough tuple gatewayEntry)
        else t

/-- The last part of `RoutingTableComputation`. -/
def hnaComputation (t : List NetworkRoute) (input : HnaInput) : List NetworkRoute :=
  input.associationSet.foldl (addAssociation input) (clear t)

/-! ## What the table should be -/

/-- The route goes through a gateway that announces its network, which the node itself does not. -/
def Through (input : HnaInput) (route : NetworkRoute) : Prop :=
  ∃ tuple ∈ input.associationSet, ⟨tuple.networkAddr, tuple.netmask⟩ ∉ input.associations ∧
    ∃ gatewayEntry, input.lookup tuple.gatewayAddr = some gatewayEntry ∧
      routeThrough tuple gatewayEntry = route

/-- There is one route to every network with a gateway, it goes through a nearest one, and there
are no others. -/
structure Follows (input : HnaInput) (t : List NetworkRoute) : Prop where
  nodup : (t.map (·.network)).Nodup
  through : ∀ route ∈ t, Through input route
  nearest : ∀ route ∈ t, ∀ other, Through input other → other.network = route.network →
    route.metric ≤ other.metric
  all : ∀ route, Through input route → ∃ route' ∈ t, route'.network = route.network

/-- A route that is left goes through a gateway, or a gateway of its network is nearer. -/
def Right (input : HnaInput) (route : NetworkRoute) : Prop :=
  Through input route ∨
    ∃ other, Through input other ∧ other.network = route.network ∧ other.metric < route.metric

/-- The routes that are left, the last half of the table, are to different networks and right. -/
def LeftRight (t : List NetworkRoute) (input : HnaInput) : Prop :=
  ((t.drop ((t.length + 1) / 2)).map (·.network)).Nodup ∧
    ∀ route ∈ t.drop ((t.length + 1) / 2), Right input route

variable {t : List NetworkRoute} {input : HnaInput} {route c : NetworkRoute} {network : Association}

/-! ## Clearing -/

theorem clearLoop_eq_drop (rounds : ℕ) : ∀ {i : ℕ} {t : List NetworkRoute},
    t.length ≤ i + rounds → clearLoop rounds i t = t.drop ((t.length + 1 - i) / 2) := by
  induction rounds with
  | zero =>
    intro i t h
    rw [clearLoop, show (t.length + 1 - i) / 2 = 0 by omega, List.drop_zero]
  | succ rounds ih =>
    intro i t h
    rw [clearLoop]
    split_ifs with hlt
    · have hlen : (t.eraseIdx 0).length = t.length - 1 := by
        rw [List.eraseIdx_zero, List.length_tail]
      rw [ih (by omega), hlen, List.eraseIdx_zero, ← List.drop_one, List.drop_drop]
      congr 1
      omega
    · rw [show (t.length + 1 - i) / 2 = 0 by omega, List.drop_zero]

/-- The last half of the routes are left. -/
theorem clear_eq_drop (t : List NetworkRoute) : clear t = t.drop ((t.length + 1) / 2) :=
  clearLoop_eq_drop t.length (Nat.le_add_left _ 0)

/-! ## One network -/

/-- The routes to a network. -/
def sub (network : Association) (t : List NetworkRoute) : List NetworkRoute :=
  t.filter (·.network = network)

/-- The route through the gateway of an association, if there is one. -/
def contribution (input : HnaInput) (tuple : AssociationTuple) : Option NetworkRoute :=
  if ⟨tuple.networkAddr, tuple.netmask⟩ ∈ input.associations then none
  else (input.lookup tuple.gatewayAddr).map (routeThrough tuple)

/-- The routes to a network through its gateways. -/
def routesThrough (input : HnaInput) (network : Association) : List NetworkRoute :=
  sub network (input.associationSet.filterMap (contribution input))

/-- The routes to a network after another one is found. -/
def update (routes : List NetworkRoute) (c : NetworkRoute) : List NetworkRoute :=
  routes.head?.elim [c] fun route =>
    if c.metric < route.metric then addNetworkRouteTo routes.tail c else routes

/-- The position of the first element with a property. -/
theorem findIdx_cases {α : Type*} (p : α → Bool) (l : List α) :
    (l[l.findIdx p]? = none ∧ ∀ a ∈ l, p a = false) ∨
      ∃ before a after, l = before ++ a :: after ∧ l.findIdx p = before.length ∧
        l[l.findIdx p]? = some a ∧ p a = true ∧ ∀ b ∈ before, p b = false := by
  induction l with
  | nil => exact .inl ⟨rfl, fun _ h => absurd h List.not_mem_nil⟩
  | cons a l ih =>
    rw [List.findIdx_cons]
    cases ha : p a with
    | true => exact .inr ⟨[], a, l, rfl, rfl, rfl, ha, fun _ h => absurd h List.not_mem_nil⟩
    | false =>
      rw [cond_false, List.getElem?_cons_succ]
      rcases ih with ⟨hnone, hall⟩ | ⟨before, b, after, rfl, hidx, hget, hb, hbefore⟩
      · exact .inl ⟨hnone, List.forall_mem_cons.2 ⟨ha, hall⟩⟩
      · refine .inr ⟨a :: before, b, after, rfl, ?_, hget, hb, List.forall_mem_cons.2 ⟨ha, hbefore⟩⟩
        rw [hidx, List.length_cons]

theorem sub_append (t t' : List NetworkRoute) :
    sub network (t ++ t') = sub network t ++ sub network t' :=
  List.filter_append _ _

theorem sub_cons_self (h : route.network = network) :
    sub network (route :: t) = route :: sub network t :=
  List.filter_cons_of_pos (decide_eq_true h)

theorem sub_cons_ne (h : route.network ≠ network) : sub network (route :: t) = sub network t :=
  List.filter_cons_of_neg (by simpa using h)

theorem sub_eq_nil (h : ∀ route ∈ t, decide (route.network = network) = false) :
    sub network t = [] :=
  List.filter_eq_nil_iff.2 fun route hroute => ne_true_of_eq_false (h route hroute)

theorem mem_sub : route ∈ sub network t ↔ route ∈ t ∧ route.network = network := by
  rw [sub, List.mem_filter, decide_eq_true_eq]

theorem mem_routesThrough :
    c ∈ routesThrough input network ↔ Through input c ∧ c.network = network := by
  rw [routesThrough, mem_sub, List.mem_filterMap]
  refine and_congr_left fun _ => exists_congr fun tuple => and_congr_right fun _ => ?_
  rw [contribution]
  split_ifs with hown
  · exact iff_of_false id fun h => h.1 hown
  · rw [Option.map_eq_some_iff]
    exact (and_iff_right hown).symm

theorem sub_addNetworkRouteTo_self : sub c.network (addNetworkRouteTo t c) =
    addNetworkRouteTo (sub c.network t) c := by
  have hmem : c ∈ sub c.network t ↔ c ∈ t := by
    rw [mem_sub, and_iff_left rfl]
  rw [addNetworkRouteTo, addNetworkRouteTo]
  simp only [hmem]
  split_ifs
  · rfl
  · rw [sub_append, sub_cons_self rfl]
    rfl

theorem sub_addNetworkRouteTo_ne (h : c.network ≠ network) :
    sub network (addNetworkRouteTo t c) = sub network t := by
  rw [addNetworkRouteTo]
  split_ifs
  · rfl
  · rw [sub_append, sub_cons_ne h]
    exact List.append_nil _

/-- An association changes the routes to its network only. -/
theorem sub_addAssociation (tuple : AssociationTuple) :
    sub network (addAssociation input t tuple) =
      (contribution input tuple).elim (sub network t) fun c =>
        if c.network = network then update (sub network t) c else sub network t := by
  rw [addAssociation, contribution]
  split_ifs with hown
  · rfl
  · cases hlookup : input.lookup tuple.gatewayAddr with
    | none => rfl
    | some gatewayEntry =>
      dsimp only [Option.elim_some, Option.map_some]
      set c := routeThrough tuple gatewayEntry with hc
      have hnetwork : c.network = ⟨tuple.networkAddr, tuple.netmask⟩ := rfl
      have hmetric : gatewayEntry.distance = c.metric := rfl
      rw [← hnetwork, hmetric]
      rcases findIdx_cases (fun route => decide (route.network = c.network)) t with
        ⟨hnone, hall⟩ | ⟨before, route, after, hsplit, hidx, hget, hroute, hbefore⟩
      · rw [hnone, Option.elim_none]
        by_cases hsame : c.network = network
        · rw [if_pos hsame, ← hsame, sub_addNetworkRouteTo_self, sub_eq_nil hall]
          rfl
        · rw [if_neg hsame, sub_addNetworkRouteTo_ne hsame]
      · have hrest : t.eraseIdx before.length = before ++ after := by
          rw [hsplit, List.eraseIdx_append_of_length_le le_rfl, Nat.sub_self]
          rfl
        have hroute := of_decide_eq_true hroute
        rw [hget, Option.elim_some, hidx, hrest, hsplit]
        by_cases hsame : c.network = network
        · rw [if_pos hsame, ← hsame, sub_append, sub_eq_nil hbefore, sub_cons_self hroute,
            List.nil_append, update, List.head?_cons, Option.elim_some, List.tail_cons]
          split_ifs with hless
          · rw [sub_addNetworkRouteTo_self, sub_append, sub_eq_nil hbefore, List.nil_append]
          · rw [sub_append, sub_eq_nil hbefore, sub_cons_self hroute, List.nil_append]
        · have hne : route.network ≠ network := by rwa [hroute]
          rw [if_neg hsame]
          split_ifs
          · rw [sub_addNetworkRouteTo_ne hsame, sub_append, sub_append, sub_cons_ne hne]
          · rfl

/-- For one network, the routes through its gateways are found one after the other. -/
theorem sub_foldl (network : Association) (tuples : List AssociationTuple) :
    ∀ t, sub network (tuples.foldl (addAssociation input) t) =
      (sub network (tuples.filterMap (contribution input))).foldl update (sub network t) := by
  induction tuples with
  | nil => exact fun t => rfl
  | cons tuple tuples ih =>
    intro t
    rw [List.foldl_cons, ih, sub_addAssociation, List.filterMap_cons]
    cases contribution input tuple with
    | none => rfl
    | some c =>
      dsimp only [Option.elim_some]
      by_cases hsame : c.network = network
      · rw [if_pos hsame, sub_cons_self hsame]
        rfl
      · rw [if_neg hsame, sub_cons_ne hsame]

/-- At most one route is replaced by the nearest one. -/
theorem foldl_update (cs : List NetworkRoute) : ∀ {o : Option NetworkRoute},
    cs.foldl update o.toList =
      (cs.foldl (List.argAux fun b c => b.metric < c.metric) o).toList := by
  induction cs with
  | nil => exact fun {o} => rfl
  | cons c cs ih =>
    intro o
    have hstep : update o.toList c =
        (List.argAux (fun b c : NetworkRoute => b.metric < c.metric) o c).toList := by
      cases o with
      | none => rfl
      | some route =>
        change (if c.metric < route.metric then addNetworkRouteTo [] c else [route]) =
          (if c.metric < route.metric then some c else some route).toList
        split_ifs <;> rfl
    rw [List.foldl_cons, List.foldl_cons, hstep, ih]

/-- Routes with metric zero are not replaced. -/
theorem foldl_update_zero {routes : List NetworkRoute} (hne : routes ≠ [])
    (hzero : ∀ route ∈ routes, route.metric = 0) (cs : List NetworkRoute) :
    cs.foldl update routes = routes := by
  induction cs with
  | nil => rfl
  | cons c cs ih =>
    obtain ⟨route, rest, rfl⟩ := List.exists_cons_of_ne_nil hne
    have hroute := hzero route List.mem_cons_self
    have hstep : update (route :: rest) c = route :: rest :=
      if_neg (by rw [hroute]; exact Nat.not_lt_zero _)
    rw [List.foldl_cons, hstep, ih]

/-! ## Runs -/

/-- Two routes to one network are routes of interfaces, with metric zero. -/
def Distinct (t : List NetworkRoute) : Prop :=
  ∀ network, (sub network t).length ≤ 1 ∨ ∀ route ∈ sub network t, route.metric = 0

theorem sub_drop (n : ℕ) (t : List NetworkRoute) :
    ∃ k, sub network (t.drop n) = (sub network t).drop k := by
  refine ⟨(sub network (t.take n)).length, ?_⟩
  have hsplit : sub network t = sub network (t.take n) ++ sub network (t.drop n) := by
    rw [← sub_append, List.take_append_drop]
  rw [hsplit, List.drop_left]

theorem Distinct.clear (h : Distinct t) : Distinct (Olsr.clear t) := by
  intro network
  obtain ⟨k, hk⟩ := @sub_drop network ((t.length + 1) / 2) t
  rw [clear_eq_drop, hk]
  refine (h network).imp (fun hlen => ?_) fun hzero route hroute =>
    hzero route (List.mem_of_mem_drop hroute)
  rw [List.length_drop]
  omega

/-- What the computation leaves of the routes to a network. -/
theorem sub_hnaComputation (network : Association) (t : List NetworkRoute) (input : HnaInput) :
    sub network (hnaComputation t input) =
      (routesThrough input network).foldl update (sub network (Olsr.clear t)) :=
  sub_foldl network _ _

theorem exists_option_of_length_le {α : Type*} {l : List α} (h : l.length ≤ 1) :
    ∃ o : Option α, l = o.toList := by
  rcases l with _ | ⟨a, _ | ⟨b, l⟩⟩
  · exact ⟨none, rfl⟩
  · exact ⟨some a, rfl⟩
  · exact absurd h (by simp)

theorem length_toList_le {α : Type*} (o : Option α) : o.toList.length ≤ 1 := by
  cases o <;> simp

theorem Distinct.hnaComputation (h : Distinct t) (input : HnaInput) :
    Distinct (Olsr.hnaComputation t input) := by
  intro network
  rw [sub_hnaComputation]
  rcases h.clear network with hlen | hzero
  · obtain ⟨o, ho⟩ := exists_option_of_length_le hlen
    rw [ho, foldl_update]
    exact .inl (length_toList_le _)
  · by_cases hnil : sub network (Olsr.clear t) = []
    · have hfold := foldl_update (routesThrough input network) (o := none)
      rw [Option.toList_none] at hfold
      rw [hnil, hfold]
      exact .inl (length_toList_le _)
    · rw [foldl_update_zero hnil hzero]
      exact .inr hzero

theorem nodup_iff_sub : (t.map (·.network)).Nodup ↔ ∀ network, (sub network t).length ≤ 1 := by
  rw [List.nodup_iff_count_le_one]
  refine forall_congr' fun network => ?_
  rw [List.count, List.countP_map, List.countP_eq_length_filter, sub]
  rfl

/-- At most one route is left to a network : the nearest one is found. -/
theorem sub_hnaComputation_toList {o : Option NetworkRoute}
    (h : sub network (Olsr.clear t) = o.toList) : sub network (Olsr.hnaComputation t input) =
      ((o.toList ++ routesThrough input network).argmin NetworkRoute.metric).toList := by
  rw [sub_hnaComputation, h, foldl_update]
  cases o <;> rfl

/-- The table follows the associations, if what is left of it is right. -/
theorem LeftRight.follows (h : LeftRight t input) :
    Follows input (Olsr.hnaComputation t input) := by
  obtain ⟨hnodup, hright⟩ := h
  rw [← clear_eq_drop, nodup_iff_sub] at hnodup
  rw [← clear_eq_drop] at hright
  have hfound (network : Association) : ∃ o : Option NetworkRoute,
      sub network (Olsr.clear t) = o.toList ∧ sub network (Olsr.hnaComputation t input) =
        ((o.toList ++ routesThrough input network).argmin NetworkRoute.metric).toList := by
    obtain ⟨o, ho⟩ := exists_option_of_length_le (hnodup network)
    exact ⟨o, ho, sub_hnaComputation_toList ho⟩
  have hmin (route : NetworkRoute) (hroute : route ∈ Olsr.hnaComputation t input) :
      Through input route ∧ ∀ other, Through input other → other.network = route.network →
        route.metric ≤ other.metric := by
    obtain ⟨o, ho, hsub⟩ := hfound route.network
    have hargmin : route ∈ (o.toList ++ routesThrough input route.network).argmin
        NetworkRoute.metric := by
      refine Option.mem_toList.1 ?_
      rw [← hsub, mem_sub]
      exact ⟨hroute, rfl⟩
    have hnearest (other : NetworkRoute) (hother : Through input other)
        (hnetwork : other.network = route.network) : route.metric ≤ other.metric :=
      List.le_of_mem_argmin
        (List.mem_append_right _ (mem_routesThrough.2 ⟨hother, hnetwork⟩)) hargmin
    refine ⟨?_, hnearest⟩
    rcases List.mem_append.1 (List.argmin_mem hargmin) with hleft | hthrough
    · rw [← ho, mem_sub] at hleft
      rcases hright route hleft.1 with hthrough | ⟨other, hother, hnetwork, hless⟩
      · exact hthrough
      · exact absurd (hnearest other hother hnetwork) (Nat.not_le.2 hless)
    · exact (mem_routesThrough.1 hthrough).1
  refine ⟨nodup_iff_sub.2 fun network => ?_, fun route hroute => (hmin route hroute).1,
    fun route hroute => (hmin route hroute).2, fun route hroute => ?_⟩
  · obtain ⟨o, -, hsub⟩ := hfound network
    rw [hsub]
    exact length_toList_le _
  · obtain ⟨o, -, hsub⟩ := hfound route.network
    have hmem : route ∈ o.toList ++ routesThrough input route.network :=
      List.mem_append_right _ (mem_routesThrough.2 ⟨hroute, rfl⟩)
    cases hargmin : (o.toList ++ routesThrough input route.network).argmin NetworkRoute.metric with
    | none =>
      rw [List.argmin_eq_none.1 hargmin] at hmem
      exact absurd hmem List.not_mem_nil
    | some route' =>
      rw [hargmin] at hsub
      have hin : route' ∈ sub route.network (Olsr.hnaComputation t input) := by
        rw [hsub]
        exact List.mem_cons_self
      exact ⟨route', mem_sub.1 hin⟩

/-- What is left of the table is right, if it follows the associations. -/
theorem Follows.leftRight (hd : Distinct t) (h : Follows input (Olsr.hnaComputation t input)) :
    LeftRight t input := by
  have hnodup := nodup_iff_sub.1 h.nodup
  have hlen (network : Association) : (sub network (Olsr.clear t)).length ≤ 1 := by
    rcases hd.clear network with hlen | hzero
    · exact hlen
    · by_cases hnil : sub network (Olsr.clear t) = []
      · rw [hnil]
        exact Nat.zero_le 1
      · have hone := hnodup network
        rwa [sub_hnaComputation, foldl_update_zero hnil hzero] at hone
  rw [LeftRight, ← clear_eq_drop]
  refine ⟨nodup_iff_sub.2 hlen, fun route hroute => ?_⟩
  obtain ⟨o, ho⟩ := exists_option_of_length_le (hlen route.network)
  have hmem : route ∈ o := by
    refine Option.mem_toList.1 ?_
    rw [← ho, mem_sub]
    exact ⟨hroute, rfl⟩
  obtain rfl := Option.mem_def.1 hmem
  have hsub := @sub_hnaComputation_toList t input route.network (some route) ho
  have hcons := List.argmin_cons NetworkRoute.metric route (routesThrough input route.network)
  change _ = ((route :: routesThrough input route.network).argmin NetworkRoute.metric).toList
    at hsub
  have hself (heq : sub route.network (Olsr.hnaComputation t input) = [route]) :
      Right input route := by
    have hin : route ∈ sub route.network (Olsr.hnaComputation t input) := by
      rw [heq]
      exact List.mem_cons_self
    exact .inl (h.through route (mem_sub.1 hin).1)
  cases hargmin : (routesThrough input route.network).argmin NetworkRoute.metric with
  | none =>
    rw [hargmin] at hcons
    refine hself ?_
    rw [hsub, hcons]
    rfl
  | some other =>
    rw [hargmin] at hcons
    change _ = if other.metric < route.metric then some other else some route at hcons
    by_cases hless : other.metric < route.metric
    · obtain ⟨hother, hnetwork⟩ := mem_routesThrough.1 (List.argmin_mem hargmin)
      exact .inr ⟨other, hother, hnetwork, hless⟩
    · rw [if_neg hless] at hcons
      refine hself ?_
      rw [hsub, hcons]
      rfl

/-- In every run from the routes of interfaces, the table follows the associations after every
computation if and only if what each computation leaves is right. -/
theorem follows_iff (hzero : ∀ route ∈ t, route.metric = 0) (inputs : List HnaInput) :
    Runs.Each hnaComputation (fun t input => Follows input (hnaComputation t input)) t inputs ↔
      Runs.Each hnaComputation LeftRight t inputs := by
  have hstart : Distinct t := fun network => .inr fun route hroute =>
    hzero route (mem_sub.1 hroute).1
  have hkeeps (t : List NetworkRoute) (input : HnaInput) (ht : Distinct t) (_ : True) :
      Distinct (hnaComputation t input) := ht.hnaComputation input
  have hstep (t : List NetworkRoute) (input : HnaInput) (ht : Distinct t) (_ : True) :
      Follows input (hnaComputation t input) ↔ LeftRight t input :=
    ⟨Follows.leftRight ht, LeftRight.follows⟩
  exact Runs.each_congr hkeeps hstep hstart fun _ _ => trivial

/-- A gateway announces two networks, or none. -/
def twoNetworks (tuples : List AssociationTuple) : HnaInput where
  associationSet := tuples
  associations := []
  lookup a := if a = 5 then some ⟨5, 4, 1, 2⟩ else none

/-- The routes to two networks that are announced, and of which the second is announced still. -/
theorem twoNetworks_follows_iff :
    (∀ route ∈ ([] : List NetworkRoute), route.metric = 0) ∧
    (Runs.Each hnaComputation (fun t input => Follows input (hnaComputation t input)) []
        [twoNetworks [⟨5, 10, 255, 0⟩, ⟨5, 20, 255, 0⟩], twoNetworks [⟨5, 20, 255, 0⟩]] ↔
      Runs.Each hnaComputation LeftRight []
        [twoNetworks [⟨5, 10, 255, 0⟩, ⟨5, 20, 255, 0⟩], twoNetworks [⟨5, 20, 255, 0⟩]]) :=
  ⟨by simp, follows_iff (by simp) _⟩

/-- The route to the second network stays in the table when no network is announced any more. -/
theorem twoNetworks_stale :
    Runs.run hnaComputation []
        [twoNetworks [⟨5, 10, 255, 0⟩, ⟨5, 20, 255, 0⟩], twoNetworks []] =
      [⟨⟨20, 255⟩, 4, 1, 2⟩] ∧
    ¬ Runs.Each hnaComputation (fun t input => Follows input (hnaComputation t input)) []
        [twoNetworks [⟨5, 10, 255, 0⟩, ⟨5, 20, 255, 0⟩], twoNetworks []] := by
  have hrun : Runs.run hnaComputation []
      [twoNetworks [⟨5, 10, 255, 0⟩, ⟨5, 20, 255, 0⟩], twoNetworks []] =
        [⟨⟨20, 255⟩, 4, 1, 2⟩] := by
    decide
  refine ⟨hrun, fun h => ?_⟩
  have hfollows : Follows (twoNetworks []) (Runs.run hnaComputation []
      [twoNetworks [⟨5, 10, 255, 0⟩, ⟨5, 20, 255, 0⟩], twoNetworks []]) := h.2.1
  rw [hrun] at hfollows
  obtain ⟨tuple, htuple, -⟩ := hfollows.through _ List.mem_cons_self
  exact absurd htuple List.not_mem_nil

end Ns3Pedca.Olsr
