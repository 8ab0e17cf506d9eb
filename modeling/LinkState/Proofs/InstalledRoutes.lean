import LinkState.Calculation
import LinkState.Proofs.Children
import LinkState.Proofs.LeastCost

/-!
# Which routes a tree installs

`Tree.Installs` says which routes a tree stands for, without a walk: one for every vertex below the
root, every address or network that the vertex makes known, and every exit that has an interface.
Intra-area routes come before stub routes, and externals last, in the order of the database.

* `Tree.clearProcessed_installInTurn`: passes leave nothing but marks on a tree;
* `Tree.installInTurn_routesAlong`: so every pass walks the same handles, and the passes write their
  routes one behind the other and count them;
* `Tree.routesBelowRoot_perm`: a pass that visits every vertex once makes the routes of every vertex
  once;
* `Explored.installs`: so the passes over the tree of a run write exactly what the tree stands for, behind
  whatever stands in the table (`Database.shortestPathTree_installs`).
-/

namespace LinkState

/-! ## 1. The routes that a tree stands for -/

/-- One route for every exit that has an interface, at the distance of the vertex. -/
def Vertex.through (w : Vertex) (route : Address → UInt32 → Metric → Route) : List Route :=
  w.exits.filterMap fun x => x.interface.map fun i => route x.nextHop i w.distance

namespace Tree

/-- The vertices but the root. -/
def belowRoot (t : Tree) (root : Address) : List Vertex := t.vertices.filter (·.id != root)

/-- Host routes to the point-to-point addresses of every router, network routes to every transit
    network. -/
def intraArea (t : Tree) (root : Address) : List Route :=
  (t.belowRoot root).flatMap fun w =>
    match w.kind with
    | .router links => (links.filter (·.type == .pointToPoint)).flatMap fun l => w.through (.host l.data)
    | .network mask _ => w.through (.network (w.id.combine mask) mask)

/-- Network routes to the stub networks of every router. -/
def stubs (t : Tree) (root : Address) : List Route :=
  (t.belowRoot root).flatMap fun w =>
    (w.kind.links.filter (·.type == .stubNetwork)).flatMap fun l => w.through (.network (l.id.combine l.data) l.data)

/-- The router that announces an external, unless it is the root or not in the tree. -/
def announcers (t : Tree) (root : Address) (e : External) : List Vertex :=
  (t.belowRoot root).filter fun w => w.kind.isRouter && w.id == e.advertisingRouter

/-- External routes through the router that announces the external. -/
def externals (t : Tree) (root : Address) (e : External) : List Route :=
  (t.announcers root e).flatMap fun w => w.through (.external (e.id.combine e.mask) e.mask)

/-- **The routes of a tree**: the intra-area routes and behind them the stub routes, each in some
    order, then the routes of the externals in turn. -/
def Installs (t : Tree) (root : Address) (es : List External) (routes : List Route) : Prop :=
  ∃ intra stub, intra.Perm (t.intraArea root) ∧ stub.Perm (t.stubs root) ∧
    routes = intra ++ stub ++ es.flatMap (t.externals root)

end Tree

namespace Vertex

theorem map_usableExits (w : Vertex) (route : Address → UInt32 → Metric → Route) :
    (w.usableExits.map fun (nextHop, interface) => route nextHop interface w.distance) = w.through route := by
  simp only [usableExits, through, List.map_filterMap, Option.map_map]
  rfl

theorem intraAreaRoutes_eq (w : Vertex) : w.intraAreaRoutes =
    match w.kind with
    | .router links => (links.filter (·.type == .pointToPoint)).flatMap fun l => w.through (.host l.data)
    | .network mask _ => w.through (.network (w.id.combine mask) mask) := by
  unfold intraAreaRoutes
  cases w.kind with
  | router links => exact congrArg (List.flatMap · _) (funext fun l : Link => w.map_usableExits (.host l.data))
  | network mask _ => exact w.map_usableExits _

theorem stubRoutes_eq (w : Vertex) : w.stubRoutes =
    (w.kind.links.filter (·.type == .stubNetwork)).flatMap fun l =>
      w.through (.network (l.id.combine l.data) l.data) :=
  congrArg (List.flatMap · _) (funext fun l : Link => w.map_usableExits (.network (l.id.combine l.data) l.data))

theorem externalRoutes_eq (w : Vertex) (e : External) :
    w.externalRoutes e = w.through (.external (e.id.combine e.mask) e.mask) :=
  w.map_usableExits _

end Vertex

/-! ## 2. Passes -/

namespace Tree

/-- A walk starts from cleared marks, so marks do not matter. -/
theorem depthFirst_eq_of_clearProcessed {t u : Tree} (hs : u.clearProcessed = t.clearProcessed) :
    u.depthFirst = t.depthFirst := by
  rw [depthFirst, depthFirst, hs]

/-- **Passes leave nothing but marks**, also where they break off. -/
theorem clearProcessed_installInTurn (fs : List (Tree → List Handle → List Route)) : ∀ (t : Tree) table,
    (installInTurn (fs.map routesAlong) t table).2.1.clearProcessed = t.clearProcessed := by
  induction fs with
  | nil => exact fun _ _ => rfl
  | cons f fs ih =>
    intro t table
    rw [List.map_cons, installInTurn, Pass.install, routesAlong]
    rcases hd : t.depthFirst with ⟨_ | handles, t'⟩
    · exact clearProcessed_depthFirst hd
    · exact (ih t' _).trans (clearProcessed_depthFirst hd)

theorem clearProcessed_allRoutes (t : Tree) (es : List External) :
    (t.allRoutes es).2.clearProcessed = t.clearProcessed := by
  have hsame := clearProcessed_installInTurn (routesBelowRoot Vertex.intraAreaRoutes ::
    routesBelowRoot Vertex.stubRoutes :: es.map fun e t order =>
      routesBelowRoot (·.externalRoutes e) t (t.firstRouter? e.advertisingRouter order).toList) t .empty
  rwa [List.map_cons, List.map_cons, List.map_map] at hsame

/-- **Every pass walks the same handles** as the first, and writes behind those before it. -/
theorem installInTurn_routesAlong {t t' : Tree} {handles : List Handle} (hd : t.depthFirst = (some handles, t'))
    (fs : List (Tree → List Handle → List Route)) :
    ∀ {u : Tree}, u.clearProcessed = t.clearProcessed → ∀ table, ∃ u',
      installInTurn (fs.map routesAlong) u table = (some (fs.flatMap fun f => f t' handles).length, u',
        table.append (fs.flatMap fun f => f t' handles)) := by
  induction fs with
  | nil => exact fun {u} _ table => ⟨u, congrArg (some 0, u, ·) table.append_nil.symm⟩
  | cons f fs ih =>
    intro u hu table
    have hpass : routesAlong f u = (some (f t' handles), t') := by
      rw [routesAlong, depthFirst_eq_of_clearProcessed hu, hd]
      rfl
    obtain ⟨u', hrest⟩ := ih (clearProcessed_depthFirst hd) (table.append (f t' handles))
    refine ⟨u', ?_⟩
    rw [List.map_cons, installInTurn, Pass.install, hpass]
    dsimp only
    rw [RoutingTable.writeAll_eq]
    dsimp only
    rw [hrest, RoutingTable.append_append, List.flatMap_cons, List.length_append]
    rfl

section Visited

variable {t t' : Tree} {root : Address} {handles : List Handle}

/-- What does not look at marks does not tell a tree from one with other marks. -/
theorem routesBelowRoot_eq_of_clearProcessed {f : Vertex → List Route} (hf : ∀ v b, f (v.setProcessed b) = f v)
    (hs : t'.clearProcessed = t.clearProcessed) (hs' : List Handle) :
    routesBelowRoot f t' hs' = routesBelowRoot f t hs' := by
  have hclear : ∀ u : Tree, routesBelowRoot f u.clearProcessed hs' = routesBelowRoot f u hs' := fun u => by
    have hvertex : u.clearProcessed.vertex? = fun h => (u.vertex? h).map (·.setProcessed false) :=
      funext u.vertex?_clearProcessed
    unfold routesBelowRoot
    rw [hvertex, ← List.map_filterMap, List.flatMap_map]
    exact congrArg (List.flatMap · _) (funext fun v => hf v false)
  rw [← hclear t', hs, hclear]

theorem filterMap_vertex?_range (t : Tree) : (List.range t.size).filterMap t.vertex? = t.vertices := by
  obtain ⟨vs⟩ := t
  unfold size
  induction vs with
  | nil => rfl
  | cons v vs ih =>
    rw [List.length_cons, List.range_succ_eq_map, List.filterMap_cons, List.filterMap_map]
    exact congrArg (v :: ·) ih

/-- **A pass that visits every vertex once** writes the routes of every vertex but the root once. -/
theorem routesBelowRoot_perm {f : Vertex → List Route} (hp : handles.Perm (List.range t.size))
    (hroot : ∀ h v, t.vertex? h = some v → (h = Tree.root ↔ v.id = root)) :
    (routesBelowRoot f t handles).Perm ((t.belowRoot root).flatMap f) := by
  have hbelow : ((List.range t.size).filter (· != Tree.root)).filterMap t.vertex? = t.belowRoot root := by
    rw [belowRoot, ← filterMap_vertex?_range, List.filter_filterMap, List.filterMap_filter]
    refine congrArg (List.filterMap · _) (funext fun h => ?_)
    cases hv : t.vertex? h with
    | none => simp
    | some v =>
      have := hroot h v hv
      by_cases hh : h = Tree.root <;> simp [hh, ← this, Option.filter]
  rw [routesBelowRoot, ← hbelow]
  exact ((hp.filter _).filterMap _).flatMap_right f

end Visited

end Tree

/-! ## 3. The routes of a run -/

namespace Explored

variable {db : Database} {resolve : Resolver} {root : Address} {t : Tree} {order : List Handle}

theorem root_iff (ht : Explored db resolve root t order) (h : Handle) (v : Vertex) (hv : t.vertex? h = some v) :
    h = Tree.root ↔ v.id = root := by
  refine ⟨fun hh => ht.id_root (hh ▸ hv), fun hid => ?_⟩
  obtain ⟨x, hx, hxid, _⟩ := ht.root
  exact ht.distinct hv hx (hid.trans hxid.symm)

theorem mem_belowRoot (ht : Explored db resolve root t order) {w : Vertex} :
    w ∈ t.belowRoot root ↔ ∃ h, t.vertex? h = some w ∧ h ≠ Tree.root := by
  simp only [Tree.belowRoot, List.mem_filter, Tree.mem_vertices, bne_iff_ne, ne_eq]
  refine ⟨fun hx => ?_, fun hx => ?_⟩
  · obtain ⟨⟨h, hw⟩, hne⟩ := hx
    exact ⟨h, hw, fun hh => hne ((ht.root_iff h w hw).1 hh)⟩
  · obtain ⟨h, hw, hne⟩ := hx
    exact ⟨⟨h, hw⟩, fun hid => hne ((ht.root_iff h w hw).2 hid)⟩

/-- The announcers of an external are one vertex at most. -/
theorem announcers_eq (ht : Explored db resolve root t order) {e : External} {h : Handle} {w : Vertex}
    (hw : t.vertex? h = some w) (hk : w.kind.isRouter = true) (hid : w.id = e.advertisingRouter) :
    t.announcers root e = if h = Tree.root then [] else [w] := by
  have hnodup : (t.announcers root e).Nodup :=
    ((List.pairwise_map.1 ht.isShortest.nodup).imp fun hne hvw => hne (congrArg Vertex.id hvw)).sublist
      (List.filter_sublist.trans List.filter_sublist)
  have hmem : ∀ v, v ∈ t.announcers root e ↔ v = w ∧ h ≠ Tree.root := fun v => by
    rw [Tree.announcers, List.mem_filter, ht.mem_belowRoot, Bool.and_eq_true, beq_iff_eq]
    refine ⟨fun hx => ?_, fun hx => ?_⟩
    · obtain ⟨⟨k, hv, hkr⟩, _, hvid⟩ := hx
      have hid' := hvid.trans hid.symm
      exact ⟨ht.eq_of_id hv hw hid', ht.distinct hv hw hid' ▸ hkr⟩
    · obtain ⟨rfl, hh⟩ := hx
      exact ⟨⟨h, hw, hh⟩, hk, hid⟩
  split
  · rename_i hh
    exact List.eq_nil_iff_forall_not_mem.2 fun v hv => ((hmem v).1 hv).2 hh
  · rename_i hh
    exact Distinct.eq_singleton hnodup fun v => (hmem v).trans (and_iff_left hh)

/-- **The pass of an external** writes the routes through the router that announces it. -/
theorem routesBelowRoot_externalRoutes (ht : Explored db resolve root t order) {handles : List Handle}
    (hp : handles.Perm (List.range t.size)) {t' : Tree} (hs : t'.clearProcessed = t.clearProcessed) (e : External) :
    Tree.routesBelowRoot (·.externalRoutes e) t' (t'.firstRouter? e.advertisingRouter handles).toList =
      t.externals root e := by
  have hfirst : t'.firstRouter? e.advertisingRouter handles = t.firstRouter? e.advertisingRouter handles := by
    have hclear : ∀ u : Tree, u.clearProcessed.firstRouter? e.advertisingRouter handles =
        u.firstRouter? e.advertisingRouter handles := fun u => by
      unfold Tree.firstRouter?
      refine congrArg (List.find? · handles) (funext fun h => ?_)
      rw [u.vertex?_clearProcessed, Option.any_map]
      rfl
    rw [← hclear t', hs, hclear]
  rw [Tree.routesBelowRoot_eq_of_clearProcessed (fun _ _ => rfl) hs, hfirst, Tree.externals]
  cases hfind : t.firstRouter? e.advertisingRouter handles with
  | none =>
    have hnone : t.announcers root e = [] := List.filter_eq_nil_iff.2 fun w hw => by
      obtain ⟨h, hv⟩ := Tree.mem_vertices.1 (List.mem_filter.1 hw).1
      have := List.find?_eq_none.1 hfind h (hp.mem_iff.2 (List.mem_range.2 (Tree.vertex?_lt hv)))
      rwa [hv] at this
    rw [hnone]
    rfl
  | some h =>
    have hany := List.find?_some hfind
    cases hw : t.vertex? h with
    | none =>
      rw [hw] at hany
      cases hany
    | some w =>
      rw [hw, Option.any_some, Bool.and_eq_true, beq_iff_eq] at hany
      rw [ht.announcers_eq hw hany.1 hany.2, Tree.routesBelowRoot, Option.toList_some]
      by_cases hh : h = Tree.root
      · simp [hh]
      · simp [hh, hw, Vertex.externalRoutes_eq]

/-- **The passes over the tree of a run** come to their end: the intra-area and the stub routes do not
    depend on the externals, which come behind them in turn. -/
theorem exists_allRoutes (ht : Explored db resolve root t order) (hl : t.Linked order) :
    ∃ intra stub, intra.Perm (t.intraArea root) ∧ stub.Perm (t.stubs root) ∧
      ∀ es, (t.allRoutes es).1 = some (intra ++ stub ++ es.flatMap (t.externals root)) := by
  obtain ⟨handles, t', hd, hs, hp⟩ := ht.exists_depthFirst hl
  have hvisit : ∀ {f g : Vertex → List Route}, (∀ v b, f (v.setProcessed b) = f v) → (∀ v, f v = g v) →
      (Tree.routesBelowRoot f t' handles).Perm ((t.belowRoot root).flatMap g) := fun {f g} hf hfg => by
    rw [Tree.routesBelowRoot_eq_of_clearProcessed hf hs, ← funext hfg]
    exact Tree.routesBelowRoot_perm hp ht.root_iff
  refine ⟨Tree.routesBelowRoot Vertex.intraAreaRoutes t' handles,
    Tree.routesBelowRoot Vertex.stubRoutes t' handles, hvisit (fun _ _ => rfl) Vertex.intraAreaRoutes_eq,
    hvisit (fun _ _ => rfl) Vertex.stubRoutes_eq, fun es => ?_⟩
  obtain ⟨u, hpass⟩ := Tree.installInTurn_routesAlong hd ([Tree.routesBelowRoot Vertex.intraAreaRoutes,
    Tree.routesBelowRoot Vertex.stubRoutes] ++ es.map fun e t order =>
      Tree.routesBelowRoot (·.externalRoutes e) t (t.firstRouter? e.advertisingRouter order).toList) rfl .empty
  rw [List.map_append, List.map_map, List.flatMap_append, List.flatMap_cons, List.flatMap_singleton,
    List.flatMap_map, RoutingTable.empty_append] at hpass
  have hexternals := congrArg (List.flatMap · es) (funext (ht.routesBelowRoot_externalRoutes hp hs))
  rw [← hexternals, Tree.allRoutes, Tree.installRoutes]
  exact congrArg (fun x : Tree.Installed => x.1.map fun _ => x.2.2.routes) hpass

/-- So they write what the tree stands for. -/
theorem installs (ht : Explored db resolve root t order) (hl : t.Linked order) (es : List External) :
    ∃ routes, (t.allRoutes es).1 = some routes ∧ t.Installs root es routes := by
  obtain ⟨intra, stub, hintra, hstub, hall⟩ := ht.exists_allRoutes hl
  exact ⟨_, hall es, intra, stub, hintra, hstub, rfl⟩

end Explored

/-- The routes that a vertex makes, each left open in the exit that it is written for. -/
inductive Vertex.Makes (w : Vertex) : (Address → UInt32 → Metric → Route) → Prop
  | host {l : Link} (hl : l ∈ w.kind.links) (htype : l.type = .pointToPoint) : Makes w (.host l.data)
  | network (destination mask : Address) : Makes w (.network destination mask)
  | external (destination mask : Address) : Makes w (.external destination mask)

theorem Vertex.mem_through {w : Vertex} {route : Address → UInt32 → Metric → Route} {r : Route} :
    r ∈ w.through route ↔ ∃ x ∈ w.exits, ∃ i, x.interface = some i ∧ route x.nextHop i w.distance = r := by
  simp only [through, List.mem_filterMap, Option.map_eq_some_iff]

namespace Tree.Installs

variable {t : Tree} {root : Address} {es : List External} {routes : List Route} {r : Route}

/-- **Every installed route is made by a vertex below the root.** -/
theorem exists_makes (hi : t.Installs root es routes) (hr : r ∈ routes) :
    ∃ w ∈ t.belowRoot root, ∃ route, w.Makes route ∧ r ∈ w.through route := by
  obtain ⟨intra, stub, hintra, hstub, rfl⟩ := hi
  rcases List.mem_append.1 hr with hr | hr
  · rcases List.mem_append.1 hr with hr | hr
    · obtain ⟨w, hw, hm⟩ := List.mem_flatMap.1 (hintra.mem_iff.1 hr)
      refine ⟨w, hw, ?_⟩
      split at hm
      · rename_i links hk
        obtain ⟨l, hl, hm⟩ := List.mem_flatMap.1 hm
        obtain ⟨hl, htype⟩ := List.mem_filter.1 hl
        exact ⟨_, .host (by rw [hk]; exact hl) (by simpa using htype), hm⟩
      · exact ⟨_, .network _ _, hm⟩
    · obtain ⟨w, hw, hm⟩ := List.mem_flatMap.1 (hstub.mem_iff.1 hr)
      obtain ⟨l, _, hm⟩ := List.mem_flatMap.1 hm
      exact ⟨w, hw, _, .network _ _, hm⟩
  · obtain ⟨e, _, hm⟩ := List.mem_flatMap.1 hr
    obtain ⟨w, hw, hm⟩ := List.mem_flatMap.1 hm
    exact ⟨w, (List.mem_filter.1 hw).1, _, .external _ _, hm⟩

/-- An installed route leaves through an exit with an interface, at the distance of its vertex. -/
theorem exists_exit (hi : t.Installs root es routes) (hr : r ∈ routes) :
    ∃ w ∈ t.belowRoot root, ∃ x ∈ w.exits, x.nextHop = r.nextHop ∧ x.interface = some r.interface ∧
      w.distance = r.metric := by
  obtain ⟨w, hw, route, hmakes, hm⟩ := hi.exists_makes hr
  obtain ⟨x, hx, i, hxi, rfl⟩ := Vertex.mem_through.1 hm
  refine ⟨w, hw, x, hx, ?_⟩
  cases hmakes <;> exact ⟨rfl, hxi, rfl⟩

/-- A host route leads to a point-to-point address of a vertex below the root. -/
theorem exists_owner (hi : t.Installs root es routes) (hr : r ∈ routes) (hk : r.kind = .host) :
    ∃ w ∈ t.belowRoot root, ∃ l ∈ w.kind.links, l.type = .pointToPoint ∧ l.data = r.destination := by
  obtain ⟨w, hw, route, hmakes, hm⟩ := hi.exists_makes hr
  obtain ⟨x, _, i, _, rfl⟩ := Vertex.mem_through.1 hm
  cases hmakes with
  | host hl htype => exact ⟨w, hw, _, hl, htype, rfl⟩
  | network _ _ => cases hk
  | external _ _ => cases hk

end Tree.Installs

/-- Every point-to-point address of a router below the root has a route over each exit with an
    interface. -/
theorem Tree.Installs.mem_host {t : Tree} {root : Address} {es : List External} {routes : List Route}
    (hi : t.Installs root es routes) {w : Vertex} (hw : w ∈ t.belowRoot root) {links : List Link}
    (hk : w.kind = .router links) {l : Link} (hl : l ∈ links) (htype : l.type = .pointToPoint) {x : Exit}
    (hx : x ∈ w.exits) {i : UInt32} (hxi : x.interface = some i) :
    .host l.data x.nextHop i w.distance ∈ routes := by
  obtain ⟨intra, stub, hintra, _, rfl⟩ := hi
  refine List.mem_append_left _ (List.mem_append_left _ (hintra.mem_iff.2 (List.mem_flatMap.2 ⟨w, hw, ?_⟩)))
  rw [hk]
  exact List.mem_flatMap.2 ⟨l, List.mem_filter.2 ⟨hl, by simp [htype]⟩, Vertex.mem_through.2 ⟨x, hx, i, hxi, rfl⟩⟩

namespace Database

/-- A run leaves the externals as they are, but for statuses, and these make no routes. -/
theorem flatMap_externals_mapStatus (db : Database) (st : Node → Status) (t : Tree) (root : Address) :
    (db.reset.mapStatus st).externals.flatMap (t.externals root) = db.externals.flatMap (t.externals root) :=
  List.flatMap_map ..

/-- What the passes over a tree write is what the calculation by that tree comes to. -/
theorem calculateTree_of_allRoutes {db db' : Database} {resolve : Resolver} {root : Address} {t : Tree}
    {routes : List Route} (hrun : db.shortestPathTree resolve root = (.ok t, db'))
    (hall : (t.allRoutes db'.externals).1 = some routes) :
    db.calculateTree resolve root = ⟨.ok (.tree t.size routes.length), routes, db'⟩ := by
  rw [calculateTree, calculateTreeInto, hrun]
  dsimp only
  rw [Tree.installRoutes_of_allRoutes hall, ← Tree.size_eq_of_clearProcessed (t.clearProcessed_allRoutes _)]
  rfl

/-- A root that is a router has a tree, and the passes over it write the routes of the tree. -/
theorem exists_installs (db : Database) (resolve : Resolver) {root : Address} {n : Node}
    (hn : db.get? root = some n) (hk : n.kind.isRouter = true) :
    ∃ t db' routes, db.shortestPathTree resolve root = (.ok t, db') ∧
      Explored db resolve root t (db.settleOrder resolve root) ∧ (t.allRoutes db'.externals).1 = some routes ∧
      t.Installs root db.externals routes := by
  obtain ⟨t, db', hrun, ht, st, hdb, _⟩ := db.exists_explored resolve hn hk
  obtain ⟨routes, hroutes, intra, stub, hintra, hstub, heq⟩ := ht.installs (linked_shortestPathTree hrun) db'.externals
  rw [hdb, flatMap_externals_mapStatus] at heq
  exact ⟨t, db', routes, hrun, ht, hroutes, intra, stub, hintra, hstub, heq⟩

/-- So its calculation comes to these routes. -/
theorem exists_calculateTree (db : Database) (resolve : Resolver) {root : Address} {n : Node}
    (hn : db.get? root = some n) (hk : n.kind.isRouter = true) :
    ∃ t db' routes, db.shortestPathTree resolve root = (.ok t, db') ∧
      Explored db resolve root t (db.settleOrder resolve root) ∧
      db.calculateTree resolve root = ⟨.ok (.tree t.size routes.length), routes, db'⟩ ∧
      t.Installs root db.externals routes := by
  obtain ⟨t, db', routes, hrun, ht, hall, hi⟩ := db.exists_installs resolve hn hk
  exact ⟨t, db', routes, hrun, ht, calculateTree_of_allRoutes hrun hall, hi⟩

/-- **The installed routes are those of the shortest-path tree.** Whatever stands in the table, the passes
    over the tree write them behind it, answer how many they are, and leave nothing but marks on the tree.
    The calculation by the tree leaves that table and that count. -/
theorem shortestPathTree_installs (db : Database) (resolve : Resolver) {root : Address} {n : Node}
    (hn : db.get? root = some n) (hk : n.kind.isRouter = true) :
    ∃ t db' routes walked, db.shortestPathTree resolve root = (.ok t, db') ∧ t.IsShortest db root ∧
      t.Installs root db.externals routes ∧ walked.clearProcessed = t.clearProcessed ∧
      ∀ table : RoutingTable,
        t.installRoutes db'.externals table = (some routes.length, walked, ⟨table.routes ++ routes⟩) ∧
        db.calculateTreeInto resolve root table =
          (.ok (.tree t.size routes.length), db', ⟨table.routes ++ routes⟩) := by
  obtain ⟨t, db', routes, hrun, ht, hall, hi⟩ := db.exists_installs resolve hn hk
  refine ⟨t, db', routes, _, hrun, ht.isShortest, hi, t.clearProcessed_allRoutes db'.externals, fun table => ⟨?_, ?_⟩⟩
  · exact Tree.installRoutes_of_allRoutes hall table
  · rw [calculateTreeInto_eq, calculateTree_of_allRoutes hrun hall]
    rfl

/-- A domain in which `10.0.0.3` hangs below two routers at equal cost, one of them behind a link
    without an interface. It announces a stub network and an external; the root, a router out of
    reach and a network announce externals too. -/
def announced : Database :=
  .ofList [
    .node ⟨.ofOctets 10 0 0 1, .router [⟨.pointToPoint, .ofOctets 10 0 0 2, .ofOctets 10 1 1 1, 1⟩,
      ⟨.pointToPoint, .ofOctets 10 0 0 4, .ofOctets 10 1 2 1, 1⟩,
      ⟨.transitNetwork, .ofOctets 10 9 0 1, .ofOctets 10 9 0 1, 1⟩,
      ⟨.stubNetwork, .ofOctets 198 51 100 0, .ofOctets 255 255 255 0, 1⟩], .inTree⟩,
    .node ⟨.ofOctets 10 0 0 2, .router [⟨.pointToPoint, .ofOctets 10 0 0 1, .ofOctets 10 1 1 2, 1⟩,
      ⟨.pointToPoint, .ofOctets 10 0 0 3, .ofOctets 10 1 3 1, 1⟩], .candidate⟩,
    .node ⟨.ofOctets 10 0 0 3, .router [⟨.pointToPoint, .ofOctets 10 0 0 2, .ofOctets 10 1 3 2, 1⟩,
      ⟨.stubNetwork, .ofOctets 192 0 2 77, .ofOctets 255 255 255 0, 1⟩], .notExplored⟩,
    .node ⟨.ofOctets 10 0 0 4, .router [⟨.pointToPoint, .ofOctets 10 0 0 1, .ofOctets 10 1 2 2, 1⟩,
      ⟨.pointToPoint, .ofOctets 10 0 0 3, .ofOctets 10 1 4 1, 1⟩], .notExplored⟩,
    .node ⟨.ofOctets 10 0 0 5, .router [⟨.pointToPoint, .ofOctets 10 0 0 1, .ofOctets 10 1 5 2, 1⟩], .notExplored⟩,
    .node ⟨.ofOctets 10 9 0 1, .network (.ofOctets 255 255 255 0) [.ofOctets 10 9 0 1], .notExplored⟩,
    .external ⟨.ofOctets 172 16 0 9, .ofOctets 255 240 0 0, .ofOctets 10 0 0 3, .notExplored⟩,
    .external ⟨.ofOctets 172 32 0 0, .ofOctets 255 240 0 0, .ofOctets 10 0 0 1, .notExplored⟩,
    .external ⟨.ofOctets 172 48 0 0, .ofOctets 255 240 0 0, .ofOctets 10 0 0 5, .inTree⟩,
    .external ⟨.ofOctets 172 64 0 0, .ofOctets 255 240 0 0, .ofOctets 10 9 0 1, .notExplored⟩]

/-- The interfaces of the root; there is none on the link to `10.0.0.4`. -/
def announcedInterfaces : InterfaceTable :=
  .ofList [⟨1, .ofOctets 10 1 1 1, .ofOctets 255 255 255 252⟩, ⟨3, .ofOctets 10 9 0 1, .ofOctets 255 255 255 0⟩]

/-- What stands in the table of the root already. -/
def announcedTable : RoutingTable :=
  ⟨[.network .unspecified .unspecified (.ofOctets 10 1 1 2) 1 7, .host (.ofOctets 10 1 1 2) (.ofOctets 10 1 1 2) 1 9]⟩

/-- Its routes: equal-cost paths count where they have an interface, and of the externals only the
    first has an announcer below the root. -/
theorem announced_installs :
    ∃ n, announced.get? (.ofOctets 10 0 0 1) = some n ∧ n.kind.isRouter = true ∧
      ∃ t db' routes walked,
        announced.shortestPathTree announcedInterfaces.resolve (.ofOctets 10 0 0 1) = (.ok t, db') ∧
        t.IsShortest announced (.ofOctets 10 0 0 1) ∧
        t.Installs (.ofOctets 10 0 0 1) announced.externals routes ∧ walked.clearProcessed = t.clearProcessed ∧
        t.installRoutes db'.externals announcedTable = (some 6, walked, ⟨announcedTable.routes ++ routes⟩) ∧
        announced.calculateTreeInto announcedInterfaces.resolve (.ofOctets 10 0 0 1) announcedTable =
          (.ok (.tree t.size 6), db', ⟨announcedTable.routes ++ routes⟩) ∧
        routes = [.host (.ofOctets 10 1 1 2) (.ofOctets 10 1 1 2) 1 1,
          .host (.ofOctets 10 1 3 1) (.ofOctets 10 1 1 2) 1 1,
          .host (.ofOctets 10 1 3 2) (.ofOctets 10 1 1 2) 1 2,
          .network (.ofOctets 10 9 0 0) (.ofOctets 255 255 255 0) .unspecified 3 1,
          .network (.ofOctets 192 0 2 0) (.ofOctets 255 255 255 0) (.ofOctets 10 1 1 2) 1 2,
          .external (.ofOctets 172 16 0 0) (.ofOctets 255 240 0 0) (.ofOctets 10 1 1 2) 1 2] := by
  obtain ⟨n, hn, hk⟩ : ∃ n, announced.get? (.ofOctets 10 0 0 1) = some n ∧ n.kind.isRouter = true := ⟨_, rfl, rfl⟩
  have hwritten : (announced.calculateTreeInto announcedInterfaces.resolve (.ofOctets 10 0 0 1) .empty).2.2.routes =
      [.host (.ofOctets 10 1 1 2) (.ofOctets 10 1 1 2) 1 1,
        .host (.ofOctets 10 1 3 1) (.ofOctets 10 1 1 2) 1 1,
        .host (.ofOctets 10 1 3 2) (.ofOctets 10 1 1 2) 1 2,
        .network (.ofOctets 10 9 0 0) (.ofOctets 255 255 255 0) .unspecified 3 1,
        .network (.ofOctets 192 0 2 0) (.ofOctets 255 255 255 0) (.ofOctets 10 1 1 2) 1 2,
        .external (.ofOctets 172 16 0 0) (.ofOctets 255 240 0 0) (.ofOctets 10 1 1 2) 1 2] := by
    decide +kernel
  obtain ⟨t, db', routes, walked, hrun, hshortest, hi, hsame, hall⟩ :=
    announced.shortestPathTree_installs announcedInterfaces.resolve hn hk
  rw [(hall .empty).2] at hwritten
  obtain rfl : routes = _ := hwritten
  obtain ⟨hinstall, hcalculate⟩ := hall announcedTable
  exact ⟨n, hn, hk, t, db', _, walked, hrun, hshortest, hi, hsame, hinstall, hcalculate, rfl⟩

end Database

end LinkState
