import LinkState.Proofs.LoopFreedom
import LinkState.Proofs.StubRouters
import LinkState.Router

/-!
# The next hop of attached networks

An exit with the next hop `0.0.0.0` says that its network is attached to the root. The same address
stands among the next hops of routers, is merged with them at equal cost, replaced behind the network
and handed on everywhere else; so it could come to mean anything. Where links have addresses
(`Database.Addressed`) it keeps its meaning.

* `Explored.isAttached_of_unspecified`: it stands only in exits of a network that has the root as a
  parent. Edges out of a network lead to routers, and there an address of the router takes its place;
* `Tree.mem_stubs`, `Tree.mem_externals`, `Tree.mem_intraArea`: all routes but those to a transit network
  are made of the exits of routers, and have a real next hop;
* `Explored.exists_resolve`: the interface of an exit is one that the resolver has answered, wherever the
  exit is handed on to.

`Database.unspecified_isAttached` puts this together for the routes that a router writes.
-/

namespace LinkState

/-- A resolved interface is in the table. -/
theorem InterfaceTable.exists_of_resolve {table : InterfaceTable} {a mask : Address} {i : UInt32}
    (h : table.resolve a mask = some i) : ∃ f ∈ table.interfaces, f.index = i := by
  unfold resolve at h
  split at h
  · obtain ⟨f, hf, hi⟩ := Option.map_eq_some_iff.1 h
    exact ⟨f, List.mem_of_find?_eq_some hf, hi⟩
  · cases h

/-! ## 1. Exits -/

namespace Explored

variable {db : Database} {resolve : Resolver} {root : Address} {t : Tree} {order : List Handle} {n : Node}
  (ht : Explored db resolve root t order) (hn : db.get? root = some n) (hk : n.kind.isRouter = true)

include ht hn hk

/-- **The next hop `0.0.0.0` stands for an attached network only.** -/
theorem isAttached_of_unspecified (haddr : db.Addressed) : ∀ h w, t.vertex? h = some w →
    ∀ x ∈ w.exits, x.nextHop = .unspecified → x.IsAttached w := by
  refine ht.exitInduction hn hk _ fun {h p w v e x} hw _ hp he hfirst inherit hu => ?_
  cases hfirst with
  | neighbour _ _ _ hb =>
    exact absurd hu (ht.data_ne_unspecified haddr hw (NodeKind.mem_transitLinks_of_linkTo? hb).1)
  | attached hpr hwk => exact ⟨rfl, by rw [hwk]; rfl, hpr ▸ hp⟩
  | entered _ _ _ _ _ hb => exact absurd hu (ht.data_ne_unspecified haddr hw hb)
  | crossed _ _ _ _ hne => exact absurd hu hne
  | inherited _ hkind hy =>
    -- it would be inherited from an attached network, and from there edges lead to routers only
    obtain ⟨_, hv, _⟩ := inherit x hy hu
    obtain ⟨m, hm, hmk⟩ := ht.node hw
    have hwr : w.kind.isRouter = true :=
      hmk ▸ Database.isRouter_of_mem_edges_network hv he.edge (he.target ▸ hm)
    rcases hkind with hkind | hkind
    · rw [hv] at hkind
      cases hkind
    · rw [hwr] at hkind
      cases hkind

/-- A router has real next hops. -/
theorem nextHop_ne_of_router (haddr : db.Addressed) {w : Vertex} (hw : w ∈ t.belowRoot root)
    (hwr : w.kind.isRouter = true) {x : Exit} (hx : x ∈ w.exits) : x.nextHop ≠ .unspecified := by
  intro hu
  obtain ⟨h, hw, _⟩ := ht.mem_belowRoot.1 hw
  obtain ⟨_, hnet, _⟩ := ht.isAttached_of_unspecified hn hk haddr h w hw x hx hu
  rw [hwr] at hnet
  cases hnet

/-- **The interface of an exit is one that the resolver has answered.** -/
theorem exists_resolve : ∀ h w, t.vertex? h = some w → ∀ x ∈ w.exits, ∀ i, x.interface = some i →
    ∃ a mask, resolve a mask = some i := by
  refine ht.exitInduction hn hk _ fun {h p w v e x} _ _ _ _ hfirst inherit i hi => ?_
  cases hfirst with
  | neighbour => exact ⟨_, _, hi⟩
  | attached => exact ⟨_, _, hi⟩
  | entered _ _ _ hy => exact inherit _ hy i hi
  | crossed _ _ _ hy => exact inherit x hy i hi
  | inherited _ _ hy => exact inherit x hy i hi

end Explored

/-! ## 2. Routes -/

namespace Tree

variable {t : Tree} {root : Address} {r : Route}

/-- A stub route leaves through an exit of a router. -/
theorem mem_stubs (hr : r ∈ t.stubs root) :
    ∃ w ∈ t.belowRoot root, w.kind.isRouter = true ∧ ∃ x ∈ w.exits, x.nextHop = r.nextHop := by
  obtain ⟨w, hw, hm⟩ := List.mem_flatMap.1 hr
  obtain ⟨l, hl, hm⟩ := List.mem_flatMap.1 hm
  obtain ⟨x, hx, i, _, rfl⟩ := Vertex.mem_through.1 hm
  refine ⟨w, hw, ?_, x, hx, rfl⟩
  cases hwk : w.kind with
  | router _ => rfl
  | network _ _ =>
    rw [hwk] at hl
    cases (List.mem_filter.1 hl).1

/-- So does an external route. -/
theorem mem_externals {e : External} (hr : r ∈ t.externals root e) :
    ∃ w ∈ t.belowRoot root, w.kind.isRouter = true ∧ ∃ x ∈ w.exits, x.nextHop = r.nextHop := by
  obtain ⟨w, hw, hm⟩ := List.mem_flatMap.1 hr
  obtain ⟨hw, hany⟩ := List.mem_filter.1 hw
  obtain ⟨x, hx, i, _, rfl⟩ := Vertex.mem_through.1 hm
  exact ⟨w, hw, (Bool.and_eq_true_iff.1 hany).1, x, hx, rfl⟩

/-- The route leads to the transit network of a vertex, through one of its exits. -/
def LeadsToNetwork (t : Tree) (root : Address) (r : Route) : Prop :=
  ∃ w ∈ t.belowRoot root, ∃ mask attached, w.kind = .network mask attached ∧ ∃ x ∈ w.exits,
    r = .network (w.id.combine mask) mask x.nextHop r.interface w.distance

/-- An intra-area route leaves through an exit of a router or leads to a transit network. -/
theorem mem_intraArea (hr : r ∈ t.intraArea root) :
    (∃ w ∈ t.belowRoot root, w.kind.isRouter = true ∧ ∃ x ∈ w.exits, x.nextHop = r.nextHop) ∨
      t.LeadsToNetwork root r := by
  obtain ⟨w, hw, hm⟩ := List.mem_flatMap.1 hr
  split at hm
  · rename_i links hwk
    obtain ⟨l, _, hm⟩ := List.mem_flatMap.1 hm
    obtain ⟨x, hx, i, _, rfl⟩ := Vertex.mem_through.1 hm
    exact .inl ⟨w, hw, by rw [hwk]; rfl, x, hx, rfl⟩
  · rename_i mask attached hwk
    obtain ⟨x, hx, i, _, rfl⟩ := Vertex.mem_through.1 hm
    exact .inr ⟨w, hw, mask, attached, hwk, x, hx, rfl⟩

/-- An installed route leaves through an exit of a router or leads to a transit network. -/
theorem Installs.exists_router_or {es : List External} {routes : List Route} (hi : t.Installs root es routes)
    (hr : r ∈ routes) : (∃ w ∈ t.belowRoot root, w.kind.isRouter = true ∧ ∃ x ∈ w.exits, x.nextHop = r.nextHop) ∨
      t.LeadsToNetwork root r := by
  obtain ⟨intra, stub, hintra, hstub, rfl⟩ := hi
  rcases List.mem_append.1 hr with hr | hr
  · rcases List.mem_append.1 hr with hr | hr
    · exact mem_intraArea (hintra.mem_iff.1 hr)
    · exact .inl (mem_stubs (hstub.mem_iff.1 hr))
  · obtain ⟨e, _, hr⟩ := List.mem_flatMap.1 hr
    exact .inl (mem_externals hr)

end Tree

/-- The route leads to a transit network that has the root as a parent. -/
def Route.ToAttached (r : Route) (t : Tree) (root : Address) : Prop :=
  ∃ w ∈ t.belowRoot root, ∃ mask attached, w.kind = .network mask attached ∧ Tree.root ∈ w.parents ∧
    r = .network (w.id.combine mask) mask .unspecified r.interface w.distance

/-- **The next hop `0.0.0.0` means attached** in the tree of a root and in the routes written for it,
    and every route leaves through an interface of the table. -/
structure InterfaceTable.KeepsAttached (table : InterfaceTable) (t : Tree) (root : Address) (routes : List Route) :
    Prop where
  exits : ∀ h w, t.vertex? h = some w → ∀ x ∈ w.exits, x.nextHop = .unspecified → x.IsAttached w
  host : ∀ r ∈ routes, r.kind = .host → r.nextHop ≠ .unspecified
  external : ∀ r ∈ routes, r.kind = .external → r.nextHop ≠ .unspecified
  stubs : ∀ r ∈ t.stubs root, r.nextHop ≠ .unspecified
  network : ∀ r ∈ routes, r.kind = .network → r.nextHop = .unspecified → r.ToAttached t root
  interface : ∀ r ∈ routes, ∃ f ∈ table.interfaces, f.index = r.interface

namespace Explored

variable {db : Database} {table : InterfaceTable} {root : Address} {t : Tree} {order : List Handle} {n : Node}
  (ht : Explored db table.resolve root t order) (hn : db.get? root = some n) (hk : n.kind.isRouter = true)
  (haddr : db.Addressed)

include ht hn hk haddr

/-- It is enough that the routes with the next hop `0.0.0.0` lead to attached networks. -/
theorem keepsAttached_of {routes : List Route}
    (hattached : ∀ r ∈ routes, r.nextHop = .unspecified → r.ToAttached t root)
    (hinterface : ∀ r ∈ routes, ∃ a mask, table.resolve a mask = some r.interface) :
    table.KeepsAttached t root routes := by
  have hkind : ∀ r ∈ routes, r.kind ≠ .network → r.nextHop ≠ .unspecified := fun r hr hne hu => by
    obtain ⟨_, _, _, _, _, _, he⟩ := hattached r hr hu
    exact hne (congrArg Route.kind he)
  constructor
  case exits => exact ht.isAttached_of_unspecified hn hk haddr
  case host => exact fun r hr h => hkind r hr (by rw [h]; decide)
  case external => exact fun r hr h => hkind r hr (by rw [h]; decide)
  case stubs =>
    intro r hr
    obtain ⟨w, hw, hwr, x, hx, hnext⟩ := Tree.mem_stubs hr
    exact hnext ▸ ht.nextHop_ne_of_router hn hk haddr hw hwr hx
  case network => exact fun r hr _ => hattached r hr
  case interface =>
    intro r hr
    obtain ⟨a, mask, h⟩ := hinterface r hr
    exact InterfaceTable.exists_of_resolve h

/-- **The routes of a tree** keep the meaning of the next hop. -/
theorem keepsAttached {es : List External} {routes : List Route} (hi : t.Installs root es routes) :
    table.KeepsAttached t root routes := by
  refine ht.keepsAttached_of hn hk haddr (fun r hr hu => ?_) fun r hr => ?_
  · rcases hi.exists_router_or hr with ⟨w, hw, hwr, x, hx, hnext⟩ | ⟨w, hw, mask, attached, hwk, x, hx, he⟩
    · exact absurd (hnext.trans hu) (ht.nextHop_ne_of_router hn hk haddr hw hwr hx)
    · obtain ⟨h, hv, _⟩ := ht.mem_belowRoot.1 hw
      have hxu : x.nextHop = .unspecified := (congrArg Route.nextHop he).symm.trans hu
      rw [hxu] at he
      exact ⟨w, hw, mask, attached, hwk, (ht.isAttached_of_unspecified hn hk haddr h w hv x hx hxu).2.2, he⟩
  · obtain ⟨w, hw, x, hx, _, hxi, _⟩ := hi.exists_exit hr
    obtain ⟨h, hv, _⟩ := ht.mem_belowRoot.1 hw
    exact ht.exists_resolve hn hk h w hv x hx _ hxi

/-- **So does the default route of a stub**: the neighbour's link back has an address. -/
theorem keepsAttached_default {exit : Exit} {metric : Metric} (hcheck : db.stubCheck table.resolve n = .stub exit metric) :
    exit.nextHop ≠ .unspecified ∧ table.KeepsAttached t root (defaultRoute exit metric) := by
  obtain ⟨uplink, m, back, _, _, hm, hback, rfl, rfl⟩ := Database.stubCheck_eq_stub_iff.1 hcheck
  have hnext : back.data ≠ .unspecified :=
    haddr m (Database.get?_eq_some_iff.1 hm).1 back (NodeKind.mem_transitLinks_of_linkTo? hback).1
  have hroute : ∀ r ∈ defaultRoute ⟨back.data, table.resolve uplink.data .hostMask⟩ uplink.metric,
      r.nextHop = back.data ∧ table.resolve uplink.data .hostMask = some r.interface := fun r hr => by
    obtain ⟨i, hi, rfl⟩ := List.mem_map.1 hr
    exact ⟨rfl, Option.mem_toList.1 hi⟩
  refine ⟨hnext, ht.keepsAttached_of hn hk haddr (fun r hr hu => ?_) fun r hr => ⟨_, _, (hroute r hr).2⟩⟩
  exact absurd ((hroute r hr).1.symm.trans hu) hnext

end Explored

namespace Database

/-- **The unspecified next hop means directly attached.** In a domain whose links have addresses, the
    routes that a router appends for a root keep the next hop `0.0.0.0` for the networks attached to
    it. An isolated root gets no routes, a stub its default route, any other those of its tree. -/
theorem unspecified_isAttached (db : Database) (haddr : db.Addressed) (router : Router) {root : Address} {n : Node}
    (hn : db.get? root = some n) (hk : n.kind.isRouter = true) :
    ∃ t db', db.shortestPathTree router.interfaces.resolve root = (.ok t, db') ∧
      ∃ o db'' routes, router.calculate db root = (.ok o, db'', router.install routes) ∧
        router.interfaces.KeepsAttached t root routes ∧
        match db.stubCheck router.interfaces.resolve n with
        | .isolated => routes = []
        | .stub exit metric => routes = defaultRoute exit metric ∧ exit.nextHop ≠ .unspecified
        | .transit => t.Installs root db.externals routes := by
  obtain ⟨t, db', routes, hrun, ht, hcalc, hi⟩ := db.exists_calculateTree router.interfaces.resolve hn hk
  refine ⟨t, db', hrun, ?_⟩
  rw [router.calculate_eq]
  cases hcheck : db.stubCheck router.interfaces.resolve n with
  | isolated =>
    rw [calculate_of_isolated hn hk hcheck]
    exact ⟨_, _, [], rfl, ht.keepsAttached_of hn hk haddr (fun r hr => absurd hr List.not_mem_nil)
      fun r hr => absurd hr List.not_mem_nil, rfl⟩
  | stub exit metric =>
    rw [calculate_of_stub hn hk hcheck]
    obtain ⟨hnext, hkeep⟩ := ht.keepsAttached_default hn hk haddr hcheck
    exact ⟨_, _, _, rfl, hkeep, rfl, hnext⟩
  | transit =>
    rw [calculate_of_transit hn hk hcheck, hcalc]
    exact ⟨_, _, routes, rfl, ht.keepsAttached hn hk haddr hi, hi⟩

/-- An attached network that is reached over a neighbour at the same cost, and a router behind it with
    a stub network and an external. -/
def merged : Database :=
  .ofList [
    .node ⟨.ofOctets 10 0 0 1, .router [⟨.pointToPoint, .ofOctets 10 0 0 2, .ofOctets 10 1 1 1, 1⟩,
      ⟨.transitNetwork, .ofOctets 10 9 0 1, .ofOctets 10 9 0 1, 3⟩], .notExplored⟩,
    .node ⟨.ofOctets 10 0 0 2, .router [⟨.pointToPoint, .ofOctets 10 0 0 1, .ofOctets 10 1 1 2, 1⟩,
      ⟨.transitNetwork, .ofOctets 10 9 0 1, .ofOctets 10 9 0 2, 2⟩], .notExplored⟩,
    .node ⟨.ofOctets 10 0 0 3, .router [⟨.transitNetwork, .ofOctets 10 9 0 1, .ofOctets 10 9 0 3, 1⟩,
      ⟨.stubNetwork, .ofOctets 192 0 2 0, .ofOctets 255 255 255 0, 1⟩], .notExplored⟩,
    .node ⟨.ofOctets 10 9 0 1, .network (.ofOctets 255 255 255 0) [.ofOctets 10 9 0 1, .ofOctets 10 9 0 3],
      .notExplored⟩,
    .external ⟨.ofOctets 172 16 0 0, .ofOctets 255 240 0 0, .ofOctets 10 0 0 3, .notExplored⟩]

/-- Its root, with an interface on the link and one on the network. -/
def mergedRoot : Router :=
  { id := .ofOctets 10 0 0 1
    interfaces := .ofList [⟨1, .ofOctets 10 1 1 1, .ofOctets 255 255 255 252⟩,
      ⟨2, .ofOctets 10 9 0 1, .ofOctets 255 255 255 0⟩] }

/-- The network has an exit of either sort, and behind it the address of the far router takes the
    place of `0.0.0.0`. -/
theorem merged_isAttached :
    merged.Addressed ∧ ∃ n, merged.get? mergedRoot.id = some n ∧ n.kind.isRouter = true ∧
      ∃ t db', merged.shortestPathTree mergedRoot.interfaces.resolve mergedRoot.id = (.ok t, db') ∧
        t.vertices.map (·.exits) = [[], [⟨.ofOctets 10 1 1 2, some 1⟩],
          [⟨.unspecified, some 2⟩, ⟨.ofOctets 10 1 1 2, some 1⟩],
          [⟨.ofOctets 10 9 0 3, some 2⟩, ⟨.ofOctets 10 1 1 2, some 1⟩]] ∧
        ∃ routes, (mergedRoot.calculate merged mergedRoot.id).2.2 = mergedRoot.install routes ∧
          mergedRoot.interfaces.KeepsAttached t mergedRoot.id routes ∧
          routes = [.host (.ofOctets 10 1 1 2) (.ofOctets 10 1 1 2) 1 1,
            .network (.ofOctets 10 9 0 0) (.ofOctets 255 255 255 0) .unspecified 2 3,
            .network (.ofOctets 10 9 0 0) (.ofOctets 255 255 255 0) (.ofOctets 10 1 1 2) 1 3,
            .network (.ofOctets 192 0 2 0) (.ofOctets 255 255 255 0) (.ofOctets 10 9 0 3) 2 3,
            .network (.ofOctets 192 0 2 0) (.ofOctets 255 255 255 0) (.ofOctets 10 1 1 2) 1 3,
            .external (.ofOctets 172 16 0 0) (.ofOctets 255 240 0 0) (.ofOctets 10 9 0 3) 2 3,
            .external (.ofOctets 172 16 0 0) (.ofOctets 255 240 0 0) (.ofOctets 10 1 1 2) 1 3] := by
  have haddr : merged.Addressed := by decide
  obtain ⟨n, hn, hk⟩ : ∃ n, merged.get? mergedRoot.id = some n ∧ n.kind.isRouter = true := ⟨_, rfl, rfl⟩
  have hexits : (merged.shortestPathTree mergedRoot.interfaces.resolve mergedRoot.id).1.toOption.map
      (fun t => t.vertices.map (·.exits)) = some [[], [⟨.ofOctets 10 1 1 2, some 1⟩],
        [⟨.unspecified, some 2⟩, ⟨.ofOctets 10 1 1 2, some 1⟩],
        [⟨.ofOctets 10 9 0 3, some 2⟩, ⟨.ofOctets 10 1 1 2, some 1⟩]] := by decide +kernel
  have hroutes : (mergedRoot.calculate merged mergedRoot.id).2.2.table.routes =
      [.host (.ofOctets 10 1 1 2) (.ofOctets 10 1 1 2) 1 1,
        .network (.ofOctets 10 9 0 0) (.ofOctets 255 255 255 0) .unspecified 2 3,
        .network (.ofOctets 10 9 0 0) (.ofOctets 255 255 255 0) (.ofOctets 10 1 1 2) 1 3,
        .network (.ofOctets 192 0 2 0) (.ofOctets 255 255 255 0) (.ofOctets 10 9 0 3) 2 3,
        .network (.ofOctets 192 0 2 0) (.ofOctets 255 255 255 0) (.ofOctets 10 1 1 2) 1 3,
        .external (.ofOctets 172 16 0 0) (.ofOctets 255 240 0 0) (.ofOctets 10 9 0 3) 2 3,
        .external (.ofOctets 172 16 0 0) (.ofOctets 255 240 0 0) (.ofOctets 10 1 1 2) 1 3] := by
    decide +kernel
  obtain ⟨t, db', hrun, _, _, routes, hcalc, hkeep, _⟩ := merged.unspecified_isAttached haddr mergedRoot hn hk
  rw [hrun] at hexits
  rw [hcalc] at hroutes
  exact ⟨haddr, n, hn, hk, t, db', hrun, Option.some.inj hexits, routes, by rw [hcalc], hkeep, hroutes⟩

end Database

end LinkState
