import LinkState.Proofs.EqualCost
import LinkState.Proofs.LeastCost

/-!
# Forwarding is free of loops

Every router computes a tree of its own, and traffic goes from router to router. This module says
that the trees of two routers agree where it matters: an exit of the vertex `w` in the tree of a root
is the address of a `Gateway` `x`, a router next to the root, and the distance of `w` is the
distance of `x` and the distance of `w` in the tree of `x`.

* `Explored.attached_or_via`: wherever an exit is first written down, its next hop is an address of
  the vertex itself; after that it is inherited along shortest paths.
* `Explored.leastCost_of_via`: what is left of a shortest path is a shortest path from the gateway.
* `Database.distance_lt_of_passes`: so every hop brings the traffic nearer to its destination.

The trees may be computed with different interfaces. Links have costs and addresses
(`Database.PositiveCosts`, `Database.Addressed`); the next hop `0.0.0.0` is left to attached networks.
-/

namespace LinkState

/-! ## 1. Gateways -/

/-- The own address of a link is never `0.0.0.0`. -/
def Database.Addressed (db : Database) : Prop :=
  ∀ n ∈ db.nodes, ∀ l ∈ n.kind.transitLinks, l.data ≠ .unspecified

instance (db : Database) : Decidable db.Addressed :=
  inferInstanceAs (Decidable (∀ n ∈ db.nodes, ∀ l ∈ n.kind.transitLinks, l.data ≠ .unspecified))

/-- The link leads to the root, or to a network that has the root as a parent. -/
def Tree.NextToRoot (t : Tree) (root : Address) (l : Link) : Prop :=
  l.id = root ∨ ∃ k v, t.vertex? k = some v ∧ v.id = l.id ∧ v.kind.isRouter = false ∧ Tree.root ∈ v.parents

/-- The vertex is a router other than the root, with the address `a` on a link next to the root. -/
structure Tree.Gateway (t : Tree) (root a : Address) (x : Vertex) : Prop where
  vertex : ∃ k, t.vertex? k = some x ∧ k ≠ Tree.root
  router : x.kind.isRouter = true
  owns : ∃ l ∈ x.kind.transitLinks, l.data = a ∧ t.NextToRoot root l

/-- A shortest path to `w` goes over the gateway `x`. -/
structure Tree.Via (t : Tree) (db : Database) (root a : Address) (x w : Vertex) : Prop where
  gateway : t.Gateway root a x
  path : ∃ c, db.Path x.id w.id c ∧ x.distance.toNat + c = w.distance.toNat

/-- The exit leads to a network that is attached to the root. -/
def Exit.IsAttached (y : Exit) (w : Vertex) : Prop :=
  y.nextHop = .unspecified ∧ w.kind.isRouter = false ∧ Tree.root ∈ w.parents

theorem NodeKind.mem_transitLinks_of_linkTo? {k : NodeKind} {id : Address} {l : Link} (h : k.linkTo? id = some l) :
    l ∈ k.transitLinks ∧ l.id = id := by
  have hl := List.find?_some h
  simp only [Bool.and_eq_true, beq_iff_eq] at hl
  refine ⟨List.mem_filter.2 ⟨List.mem_of_find?_eq_some h, ?_⟩, hl.2⟩
  rw [Link.isTransit, hl.1]
  rfl

/-- Over a tight edge the path goes on. -/
theorem Tree.Via.extend {t : Tree} {db : Database} {root a : Address} {p : Handle} {x v w : Vertex} {e : Edge}
    {n : Node} (hx : t.Via db root a x v) (he : t.Tight db p v e w) (hn : db.get? v.id = some n)
    (hk : n.kind = v.kind) : t.Via db root a x w := by
  obtain ⟨c, hp, hc⟩ := hx.path
  refine ⟨hx.gateway, c + e.cost.toNat, ?_, ?_⟩
  · rw [← he.target]
    exact .step hp hn (hk ▸ he.edge)
  · rw [← Nat.add_assoc, hc, he.distance]

namespace Explored

variable {db : Database} {resolve : Resolver} {root : Address} {t : Tree} {order : List Handle} {n : Node}

/-- A router of the tree is its own gateway if it has an address next to the root. -/
theorem via_self (ht : Explored db resolve root t order) {h : Handle} {w : Vertex} (hw : t.vertex? h = some w)
    (hr : h ≠ Tree.root) (hk : w.kind.isRouter = true) {l : Link} (hl : l ∈ w.kind.transitLinks)
    (hnext : t.NextToRoot root l) : t.Via db root l.data w w := by
  obtain ⟨m, hm, _⟩ := ht.node hw
  exact ⟨⟨⟨h, hw, hr⟩, hk, l, hl, rfl, hnext⟩, 0, .start (by rw [hm]; rfl), rfl⟩

/-- The links of a vertex are those of its node, so they have addresses. -/
theorem data_ne_unspecified (ht : Explored db resolve root t order) (haddr : db.Addressed) {h : Handle} {w : Vertex}
    (hw : t.vertex? h = some w) {l : Link} (hl : l ∈ w.kind.transitLinks) : l.data ≠ .unspecified := by
  obtain ⟨m, hm, hmk⟩ := ht.node hw
  exact haddr m (Database.get?_eq_some_iff.1 hm).1 l (hmk.symm ▸ hl)

/-- No gateway has the address `0.0.0.0`. -/
theorem nextHop_ne_of_via (ht : Explored db resolve root t order) (haddr : db.Addressed) {a : Address} {x w : Vertex}
    (hx : t.Via db root a x w) : a ≠ .unspecified := by
  obtain ⟨k, hk, _⟩ := hx.gateway.vertex
  obtain ⟨l, hl, rfl, _⟩ := hx.gateway.owns
  exact ht.data_ne_unspecified haddr hk hl

/-- **Where an exit comes from**: it leads to an attached network, or its next hop is a gateway that
    a shortest path goes over. -/
theorem attached_or_via (ht : Explored db resolve root t order) (hn : db.get? root = some n)
    (hroot : n.kind.isRouter = true) (haddr : db.Addressed) : ∀ h w, t.vertex? h = some w → h ≠ Tree.root →
      w.distance < Metric.limit → ∀ y ∈ w.exits, y.IsAttached w ∨ ∃ x, t.Via db root y.nextHop x w := by
  refine settleInduction order _ fun h w hw ih hr hlim y hy => ?_
  obtain ⟨p, hp, v, e, he, hfirst⟩ := ((ht.keepsPaths hn hroot hw hr).mem_exits y).1 hy
  have htight : t.Tight db p v e w := (Tree.tight_iff_reaches hlim).2 he
  have inherit : p ≠ Tree.root → ∀ z ∈ v.exits, z.IsAttached v ∨ ∃ x, t.Via db root z.nextHop x v := fun hpr =>
    ih p v (ht.before_of_mem hw hr hp) he.source hpr (htight.belowLimit hlim)
  have extend : ∀ {a x}, t.Via db root a x v → t.Via db root a x w := fun hx => by
    obtain ⟨m, hm, hk⟩ := ht.node he.source
    exact hx.extend htight hm hk
  cases hfirst with
  | neighbour hpr hwr _ hb =>
    obtain ⟨hl, hid⟩ := NodeKind.mem_transitLinks_of_linkTo? hb
    exact .inr ⟨w, ht.via_self hw hr hwr hl (.inl (by rw [hid, ht.id_root (hpr ▸ he.source)]))⟩
  | attached hpr hwk => exact .inl ⟨rfl, by rw [hwk]; rfl, hpr ▸ hp⟩
  | @entered z back hpr hv hwr hz hu hb hid =>
    rcases inherit hpr z hz with hatt | ⟨x, hx⟩
    · exact .inr ⟨w, ht.via_self hw hr hwr hb (.inr ⟨p, v, he.source, hid.symm, hv, hatt.2.2⟩)⟩
    · exact absurd hu (ht.nextHop_ne_of_via haddr hx)
  | crossed hpr _ _ hz hu =>
    rcases inherit hpr y hz with hatt | ⟨x, hx⟩
    · exact absurd hatt.1 hu
    · exact .inr ⟨x, extend hx⟩
  | inherited hpr hk hz =>
    rcases inherit hpr y hz with hatt | ⟨x, hx⟩
    · -- an attached network leads to routers only, and those are not inherited from it
      have hwr := ht.isRouter_of_tight hw htight hatt.2.1
      rcases hk with hk | hk
      · rw [hatt.2.1] at hk
        cases hk
      · rw [hwr] at hk
        cases hk
    · exact .inr ⟨x, extend hx⟩

/-! ## 2. Distances in two trees -/

/-- **The rest of a shortest path is a shortest path from the gateway.** -/
theorem leastCost_of_via (ht : Explored db resolve root t order) {h : Handle} {a : Address} {x w : Vertex}
    (hw : t.vertex? h = some w) (hlim : w.distance < Metric.limit) (hx : t.Via db root a x w) :
    ∃ c, db.LeastCost x.id w.id c ∧ x.distance.toNat + c = w.distance.toNat := by
  obtain ⟨c, hp, hc⟩ := hx.path
  refine ⟨c, ⟨hp, fun c' hp' => ?_⟩, hc⟩
  obtain ⟨k, hk, _⟩ := hx.gateway.vertex
  obtain ⟨cx, hpx, hcx⟩ := ht.exists_path k x hk
  obtain ⟨k', u, hu, hid, hle⟩ := ht.exists_vertex_of_path (hpx.trans hp')
  have hlim : w.distance.toNat < Metric.limit.toNat := UInt32.lt_iff_toNat_lt.1 hlim
  rw [ht.eq_of_id hu hw hid] at hle
  omega

/-- No vertex but the root is at the root. -/
theorem distance_pos (ht : Explored db resolve root t order) (hn : db.get? root = some n)
    (hroot : n.kind.isRouter = true) (hpos : db.PositiveCosts) :
    ∀ h w, t.vertex? h = some w → h ≠ Tree.root → 0 < w.distance.toNat := by
  refine settleInduction order _ fun h w hw ih hr => ?_
  by_cases hlim : w.distance < Metric.limit
  · obtain ⟨p, hp⟩ := ht.exists_parent hw hr
    obtain ⟨v, e, he⟩ := ht.precedes_of_mem hw hr hlim hp
    cases hv : v.kind.isRouter with
    | true => exact Nat.lt_of_le_of_lt (Nat.zero_le _) (ht.distance_lt_of_tight hpos he hv)
    | false =>
      rw [← distance_eq_of_tight he hv]
      exact ih p v (ht.before_of_mem hw hr hp) he.source (ht.ne_root_of_network hn hroot he.source hv)
  · have hge : Metric.limit.toNat ≤ w.distance.toNat :=
      Nat.le_of_not_lt fun hlt => hlim (UInt32.lt_iff_toNat_lt.2 hlt)
    exact Nat.lt_of_lt_of_le (by decide) hge

theorem find?_of_vertex? (ht : Explored db resolve root t order) {h : Handle} {w : Vertex}
    (hw : t.vertex? h = some w) : t.find? w.id = some w := by
  have hsome : (t.find? w.id).isSome := List.find?_isSome.2 ⟨w, Tree.mem_vertices.2 ⟨h, hw⟩, beq_self_eq_true _⟩
  obtain ⟨v, hv⟩ := Option.isSome_iff_exists.1 hsome
  obtain ⟨k, hk⟩ := Tree.mem_vertices.1 (List.mem_of_find?_eq_some hv)
  rw [hv, ht.eq_of_id hk hw (by simpa using List.find?_some hv)]

end Explored

namespace Database

/-- The distance of a node in the tree of `root`. -/
def distance? (db : Database) (resolve : Resolver) (root id : Address) : Option Metric :=
  (db.shortestPathTree resolve root).1.toOption.bind fun t => (t.find? id).map (·.distance)

theorem distance?_of_vertex? {db db' : Database} {resolve : Resolver} {root : Address} {t : Tree} {h : Handle}
    {w : Vertex} (hrun : db.shortestPathTree resolve root = (.ok t, db')) (hw : t.vertex? h = some w) :
    db.distance? resolve root w.id = some w.distance := by
  obtain ⟨n, hn, hk⟩ := exists_router_of_run hrun
  obtain ⟨t', db'', hrun', ht, _⟩ := db.exists_explored resolve hn hk
  rw [hrun] at hrun'
  cases hrun'
  rw [distance?, hrun]
  show (t.find? w.id).map (·.distance) = some w.distance
  rw [ht.find?_of_vertex? hw, Option.map_some]

/-- A router gives every node that it reaches the least cost as distance, whatever its interfaces. -/
theorem exists_distance? {db : Database} (resolve : Resolver) {root id : Address} {n : Node} {c : Nat}
    (hn : db.get? root = some n) (hk : n.kind.isRouter = true) (hc : db.LeastCost root id c) :
    ∃ d, db.distance? resolve root id = some d ∧ d.toNat = min Metric.limit.toNat c := by
  obtain ⟨t, db', hrun, ht, _⟩ := db.exists_explored resolve hn hk
  obtain ⟨h, w, hw, rfl, _⟩ := ht.exists_vertex_of_path hc.path
  exact ⟨w.distance, distance?_of_vertex? hrun hw, ht.distance_eq hw hc⟩

/-! ## 3. From router to router -/

/-- The router `r` passes traffic for `dest` on to the router `x`: one of its exits for `dest` has the
    gateway `x`, and its distance is that of `x` and that of `dest` in the tree of `x`. Every router
    has interfaces of its own. -/
inductive Passes (db : Database) (resolve : Address → Resolver) (dest r : Address) : Address → Prop
  | hop {t : Tree} {db' : Database} {h : Handle} {w x : Vertex} {y : Exit} {d : Metric}
      (hrun : db.shortestPathTree (resolve r) r = (.ok t, db')) (hw : t.vertex? h = some w) (hid : w.id = dest)
      (hlim : w.distance < Metric.limit) (hy : y ∈ w.exits) (hx : t.Gateway r y.nextHop x)
      (hd : db.distance? (resolve x.id) x.id dest = some d)
      (hsum : w.distance.toNat = x.distance.toNat + d.toNat) : Passes db resolve dest r x.id

variable {db : Database} {resolve : Address → Resolver} {dest r x : Address}

/-- **Every hop brings traffic nearer to its destination.** -/
theorem distance_lt_of_passes (hpos : db.PositiveCosts) (h : db.Passes resolve dest r x) :
    ∃ d d', db.distance? (resolve r) r dest = some d ∧ db.distance? (resolve x) x dest = some d' ∧
      d'.toNat < d.toNat := by
  cases h with
  | @hop t db' h w v y d hrun hw hid hlim hy hx hd hsum =>
    subst hid
    refine ⟨w.distance, d, distance?_of_vertex? hrun hw, hd, ?_⟩
    obtain ⟨n, hn, hk⟩ := exists_router_of_run hrun
    obtain ⟨t', _, hrun', ht, _⟩ := db.exists_explored (resolve r) hn hk
    rw [hrun] at hrun'
    cases hrun'
    obtain ⟨k, hv, hkr⟩ := hx.vertex
    have := ht.distance_pos hn hk hpos k v hv hkr
    omega

/-- **Traffic is passed on a finite number of times**, and comes to no router twice. -/
theorem wellFounded_passes (hpos : db.PositiveCosts) (resolve : Address → Resolver) (dest : Address) :
    WellFounded fun x r => db.Passes resolve dest r x := by
  refine Subrelation.wf (fun {x r} h => ?_)
    (measure fun r => ((db.distance? (resolve r) r dest).map UInt32.toNat).getD 0).wf
  obtain ⟨d, d', hd, hd', hlt⟩ := distance_lt_of_passes hpos h
  show ((db.distance? (resolve x) x dest).map UInt32.toNat).getD 0 <
    ((db.distance? (resolve r) r dest).map UInt32.toNat).getD 0
  rw [hd, hd']
  exact hlt

end Database

/-- **What the exit `y` for `w` leads to**: to a network that is attached to the root, or to a gateway
    in whose tree, whatever its interfaces, `w` has the rest of the distance, which is less. -/
def Tree.Forwards (t : Tree) (db : Database) (root : Address) (w : Vertex) (y : Exit) : Prop :=
  y.IsAttached w ∨ ∃ x, t.Gateway root y.nextHop x ∧ ∀ resolve, ∃ d, db.distance? resolve x.id w.id = some d ∧
    w.distance.toNat = x.distance.toNat + d.toNat ∧ d.toNat < w.distance.toNat

theorem Explored.forwards {db : Database} {resolve : Resolver} {root : Address} {t : Tree} {order : List Handle}
    {n : Node} (ht : Explored db resolve root t order) (hn : db.get? root = some n)
    (hroot : n.kind.isRouter = true) (hpos : db.PositiveCosts) (haddr : db.Addressed) {h : Handle} {w : Vertex}
    (hw : t.vertex? h = some w) (hr : h ≠ Tree.root) (hlim : w.distance < Metric.limit) {y : Exit}
    (hy : y ∈ w.exits) : t.Forwards db root w y := by
  rcases ht.attached_or_via hn hroot haddr h w hw hr hlim y hy with hatt | ⟨x, hx⟩
  · exact .inl hatt
  · obtain ⟨c, hc, hsum⟩ := ht.leastCost_of_via hw hlim hx
    obtain ⟨k, hk, hkr⟩ := hx.gateway.vertex
    obtain ⟨m, hm, hmk⟩ := ht.node hk
    have hxpos := ht.distance_pos hn hroot hpos k x hk hkr
    have hlim : w.distance.toNat < Metric.limit.toNat := UInt32.lt_iff_toNat_lt.1 hlim
    refine .inr ⟨x, hx.gateway, fun resolve' => ?_⟩
    obtain ⟨d, hd, hdc⟩ := Database.exists_distance? resolve' hm (hmk ▸ hx.gateway.router) hc
    exact ⟨d, hd, by omega, by omega⟩

/-- **Forwarding is free of loops.** Every exit of a tree leads to an attached network or to a gateway
    that is nearer to the destination in its own tree, and traffic that is passed on from gateway to
    gateway is passed on a finite number of times. -/
theorem Database.forwarding_loopFree (db : Database) (hpos : db.PositiveCosts) (haddr : db.Addressed) :
    (∀ resolve root n, db.get? root = some n → n.kind.isRouter = true →
      ∃ t db', db.shortestPathTree resolve root = (.ok t, db') ∧
        ∀ h w, t.vertex? h = some w → h ≠ Tree.root → w.distance < Metric.limit →
          ∀ y ∈ w.exits, t.Forwards db root w y) ∧
      ∀ resolve dest, WellFounded fun x r => db.Passes resolve dest r x := by
  refine ⟨fun resolve root n hn hk => ?_, wellFounded_passes hpos⟩
  obtain ⟨t, db', hrun, ht, _⟩ := db.exists_explored resolve hn hk
  exact ⟨t, db', hrun, fun h w hw hr hlim y hy => ht.forwards hn hk hpos haddr hw hr hlim hy⟩

/-- A domain with a relay: `10.0.0.2` shares a network with `10.0.0.1` and a link with `10.0.0.3`. -/
def Database.relayed : Database :=
  .ofList [
    .node ⟨.ofOctets 10 0 0 1, .router [⟨.transitNetwork, .ofOctets 10 9 0 1, .ofOctets 10 9 0 1, 1⟩], .inTree⟩,
    .node ⟨.ofOctets 10 0 0 2, .router [⟨.transitNetwork, .ofOctets 10 9 0 1, .ofOctets 10 9 0 2, 1⟩,
      ⟨.pointToPoint, .ofOctets 10 0 0 3, .ofOctets 10 1 1 1, 5⟩], .notExplored⟩,
    .node ⟨.ofOctets 10 0 0 3, .router [⟨.pointToPoint, .ofOctets 10 0 0 2, .ofOctets 10 1 1 2, 5⟩], .candidate⟩,
    .node ⟨.ofOctets 10 9 0 1, .network (.ofOctets 255 255 255 0) [.ofOctets 10 9 0 1, .ofOctets 10 9 0 2],
      .notExplored⟩]

/-- Its one exit towards `10.0.0.3` is the address of the relay. -/
theorem Database.relayed_forwards :
    relayed.PositiveCosts ∧ relayed.Addressed ∧
      (∃ n, relayed.get? (.ofOctets 10 0 0 1) = some n ∧ n.kind.isRouter = true ∧
        ∃ t db', relayed.shortestPathTree InterfaceTable.empty.resolve (.ofOctets 10 0 0 1) = (.ok t, db') ∧
          ∃ w, t.vertex? 3 = some w ∧
            (w.id, w.distance, w.exits) = (.ofOctets 10 0 0 3, 6, [⟨.ofOctets 10 9 0 2, none⟩]) ∧
            t.Forwards relayed (.ofOctets 10 0 0 1) w ⟨.ofOctets 10 9 0 2, none⟩) ∧
      WellFounded fun x r => relayed.Passes (fun _ => InterfaceTable.empty.resolve) (.ofOctets 10 0 0 3) r x := by
  have hpos : relayed.PositiveCosts := by decide
  have haddr : relayed.Addressed := by decide
  obtain ⟨n, hn⟩ : ∃ n, relayed.get? (.ofOctets 10 0 0 1) = some n := ⟨_, rfl⟩
  have hk : n.kind.isRouter = true := by
    cases hn
    rfl
  have hvertex : (relayed.shortestPathTree InterfaceTable.empty.resolve (.ofOctets 10 0 0 1)).1.toOption.bind
      (fun t => (t.vertex? 3).map fun w => (w.id, w.distance, w.exits)) =
        some (.ofOctets 10 0 0 3, 6, [⟨.ofOctets 10 9 0 2, none⟩]) := by decide +kernel
  obtain ⟨hforwards, hwf⟩ := relayed.forwarding_loopFree hpos haddr
  obtain ⟨t, db', hrun, hexits⟩ := hforwards InterfaceTable.empty.resolve _ n hn hk
  rw [hrun] at hvertex
  obtain ⟨w, hw, hwv⟩ := Option.map_eq_some_iff.1 hvertex
  simp only [Prod.mk.injEq] at hwv
  obtain ⟨hid, hd, hx⟩ := hwv
  have hlim : w.distance < Metric.limit := hd ▸ by decide
  refine ⟨hpos, haddr, ⟨n, hn, hk, t, db', hrun, w, hw, by rw [hid, hd, hx], ?_⟩, hwf _ _⟩
  exact hexits 3 w hw (by decide) hlim _ (hx ▸ List.mem_singleton.2 rfl)

end LinkState
