import LinkState.Proofs.ReachablePart
import LinkState.Proofs.StoreHistory

/-!
# Building the database once more

The database is built into what is there already. A node takes the place of the one stored before, and
a root stays where it stands, so a second build leaves both as they are. An external is kept beside those
that came before, so a second build stores every external of the routers once more.

* `Database.nodes_insertAll_insertAll`, `Distinct.merge_merge`: nodes and roots do not repeat;
* `Database.exists_addsByExternal`: databases with the same nodes give a root the same routes, but for
  those that each external adds behind them;
* `Manager.rebuilds_buildDatabase`: so after the second build every root has the routes of the first, and
  behind them those of the repeated externals.
-/

namespace LinkState

/-! ## 1. Storing a list once more -/

namespace Distinct

variable {α : Type} [DecidableEq α]

theorem merge_of_subset : ∀ {ys xs : List α}, (∀ y ∈ ys, y ∈ xs) → merge xs ys = xs
  | [], _, _ => rfl
  | y :: ys, xs, h => by
    have hadd : add xs y = xs := if_pos (h y List.mem_cons_self)
    show merge (add xs y) ys = xs
    rw [hadd]
    exact merge_of_subset fun z hz => h z (List.mem_cons_of_mem _ hz)

/-- **Merging is idempotent.** -/
theorem merge_merge (xs ys : List α) : merge (merge xs ys) ys = merge xs ys :=
  merge_of_subset fun _ hy => mem_merge.2 (.inr hy)

end Distinct

namespace Database

variable {db db' : Database} {resolve : Resolver} {root : Address}

/-- **Of the nodes nothing repeats.** -/
theorem nodes_insertAll_insertAll (db : Database) (ads : List Advertisement) :
    ((db.insertAll ads).insertAll ads).nodes = (db.insertAll ads).nodes := by
  refine nodes_eq_of_mem_iff fun n => ?_
  rw [mem_nodes_insertAll_iff]
  refine ⟨fun h => ?_, fun hn => ?_⟩
  · exact h.elim (fun hs => mem_nodes_insertAll_iff.2 (.inl hs)) And.left
  · rcases mem_nodes_insertAll_iff.1 hn with hs | ⟨_, hnone⟩
    · exact .inl hs
    · exact .inr ⟨hn, hnone⟩

/-! ## 2. Databases with the same nodes -/

theorem get?_of_nodes (h : db'.nodes = db.nodes) (id : Address) : db'.get? id = db.get? id := by
  rw [get?, get?, h]

theorem hasRouter_of_nodes (h : db'.nodes = db.nodes) (id : Address) : db'.hasRouter id = db.hasRouter id := by
  rw [hasRouter, hasRouter, get?_of_nodes h]

theorem stubCheck_of_nodes (h : db'.nodes = db.nodes) (n : Node) : db'.stubCheck resolve n = db.stubCheck resolve n := by
  unfold stubCheck
  simp only [get?_of_nodes h]

/-- **The same nodes make the same tree**: without the externals the databases are the same. -/
theorem shortestPathTree_of_nodes (h : db'.nodes = db.nodes) {n : Node} (hn : db.get? root = some n)
    (hk : n.kind.isRouter = true) (resolve : Resolver) :
    (db'.shortestPathTree resolve root).1 = (db.shortestPathTree resolve root).1 := by
  have hbare : ∀ d : Database, d.get? root = some n →
      ((d.restrict (fun _ => true) fun _ => false).shortestPathTree resolve root).1 =
        (d.shortestPathTree resolve root).1 := fun d hd => by
    rw [shortestPathTree_restrict (fun _ _ _ _ _ _ => rfl) hd hk rfl]
  have heq : db'.restrict (fun _ => true) (fun _ => false) = db.restrict (fun _ => true) fun _ => false :=
    ext_parts (congrArg (List.filter fun _ => true) h) (by simp only [restrict, List.filter_false])
  rw [← hbare db' ((get?_of_nodes h root).trans hn), heq, hbare db hn]

end Database

namespace Tree

variable {t : Tree} {root : Address} {r : Route}

theorem kind_of_mem_externals {e : External} (hr : r ∈ t.externals root e) : r.kind = .external := by
  obtain ⟨w, _, hm⟩ := List.mem_flatMap.1 hr
  obtain ⟨x, _, i, _, rfl⟩ := Vertex.mem_through.1 hm
  rfl

theorem kind_ne_of_mem_stubs (hr : r ∈ t.stubs root) : r.kind ≠ .external := by
  obtain ⟨w, _, hm⟩ := List.mem_flatMap.1 hr
  obtain ⟨l, _, hm⟩ := List.mem_flatMap.1 hm
  obtain ⟨x, _, i, _, rfl⟩ := Vertex.mem_through.1 hm
  exact nofun

theorem kind_ne_of_mem_intraArea (hr : r ∈ t.intraArea root) : r.kind ≠ .external := by
  obtain ⟨w, _, hm⟩ := List.mem_flatMap.1 hr
  split at hm
  · obtain ⟨l, _, hm⟩ := List.mem_flatMap.1 hm
    obtain ⟨x, _, i, _, rfl⟩ := Vertex.mem_through.1 hm
    exact nofun
  · obtain ⟨x, _, i, _, rfl⟩ := Vertex.mem_through.1 hm
    exact nofun

end Tree

theorem kind_ne_of_mem_defaultRoute {exit : Exit} {metric : Metric} {r : Route} (hr : r ∈ defaultRoute exit metric) :
    r.kind ≠ .external := by
  obtain ⟨i, _, rfl⟩ := List.mem_map.1 hr
  exact nofun

/-- Routes within the domain, and the routes to each external. -/
structure SetsApart (own : List Route) (added : External → List Route) : Prop where
  kind_own : ∀ r ∈ own, r.kind ≠ .external
  kind_added : ∀ e, ∀ r ∈ added e, r.kind = .external

theorem setsApart_nil {own : List Route} (hown : ∀ r ∈ own, r.kind ≠ .external) : SetsApart own fun _ => [] :=
  ⟨hown, fun _ _ hr => absurd hr List.not_mem_nil⟩

namespace Database

variable {db : Database} {resolve : Resolver} {root : Address}

/-- **What the externals are to a root**: on any database with the same nodes it gets the same routes of
    its own domain, and behind them those that each external adds. -/
structure AddsByExternal (db : Database) (resolve : Resolver) (root : Address) (own : List Route)
    (added : External → List Route) : Prop extends SetsApart own added where
  routes : ∀ db' : Database, db'.nodes = db.nodes →
    (db'.calculate resolve root).routes = own ++ db'.externals.flatMap added

/-- Without a tree the externals add nothing. -/
theorem addsByExternal_nil {own : List Route} (hown : ∀ r ∈ own, r.kind ≠ .external)
    (h : ∀ db' : Database, db'.nodes = db.nodes → (db'.calculate resolve root).routes = own) :
    db.AddsByExternal resolve root own fun _ => [] where
  toSetsApart := setsApart_nil hown
  routes db' hdb := by rw [h db' hdb, List.flatMap_eq_nil_iff.2 fun _ _ => rfl, List.append_nil]

/-- With a tree every external adds the routes to its announcer. -/
theorem exists_addsByExternal_of_transit {n : Node} (hn : db.get? root = some n) (hk : n.kind.isRouter = true)
    (hcheck : db.stubCheck resolve n = .transit) : ∃ own added, db.AddsByExternal resolve root own added := by
  obtain ⟨t, _, hrun, ht, _⟩ := db.exists_explored resolve hn hk
  obtain ⟨intra, stub, hintra, hstub, hall⟩ := ht.exists_allRoutes (linked_shortestPathTree hrun)
  refine ⟨intra ++ stub, t.externals root, ⟨fun r hr => ?_, fun _ _ => Tree.kind_of_mem_externals⟩, fun db' hdb => ?_⟩
  · rcases List.mem_append.1 hr with hr | hr
    · exact Tree.kind_ne_of_mem_intraArea (hintra.mem_iff.1 hr)
    · exact Tree.kind_ne_of_mem_stubs (hstub.mem_iff.1 hr)
  · have hn' : db'.get? root = some n := (get?_of_nodes hdb root).trans hn
    obtain ⟨t', db'', hrun', _, st, hst, _⟩ := db'.exists_explored resolve hn' hk
    have htree := shortestPathTree_of_nodes hdb hn hk resolve
    rw [hrun, hrun'] at htree
    cases htree
    rw [calculate_of_transit hn' hk ((stubCheck_of_nodes hdb n).trans hcheck),
      calculateTree_of_allRoutes hrun' (hall _), hst, flatMap_externals_mapStatus]

theorem exists_addsByExternal (db : Database) (resolve : Resolver) (root : Address) :
    ∃ own added, db.AddsByExternal resolve root own added := by
  cases hrouter : db.hasRouter root with
  | false =>
    refine ⟨[], _, addsByExternal_nil (fun _ hr => absurd hr List.not_mem_nil) fun db' hdb => ?_⟩
    obtain ⟨e, he⟩ := exists_calculate_error ((hasRouter_of_nodes hdb root).trans hrouter) resolve
    rw [he]
  | true =>
    obtain ⟨n, hn, hk⟩ := hasRouter_iff.1 hrouter
    cases hcheck : db.stubCheck resolve n with
    | isolated =>
      refine ⟨[], _, addsByExternal_nil (fun _ hr => absurd hr List.not_mem_nil) fun db' hdb => ?_⟩
      rw [calculate_of_isolated ((get?_of_nodes hdb root).trans hn) hk ((stubCheck_of_nodes hdb n).trans hcheck)]
    | stub exit metric =>
      refine ⟨defaultRoute exit metric, _, addsByExternal_nil (fun _ => kind_ne_of_mem_defaultRoute) fun db' hdb => ?_⟩
      rw [calculate_of_stub ((get?_of_nodes hdb root).trans hn) hk ((stubCheck_of_nodes hdb n).trans hcheck)]
    | transit => exact exists_addsByExternal_of_transit hn hk hcheck

end Database

/-! ## 3. A second build -/

namespace Manager

/-- The externals that the routers advertise, in the order in which they are stored. -/
def announced (m : Manager) : List External :=
  (m.routers.flatMap (·.advertisements)).filterMap Advertisement.external?

/-- **What a second build changes.** Routers, roots and nodes stay as they are, and the externals that
    the routers advertise come once more. Calculating the roots then counts the same, and every router
    gets the routes of its own domain once and those of each external as often as it is stored. -/
structure Rebuilds (once twice : Manager) : Prop where
  routers : twice.routers = once.routers
  roots : twice.roots = once.roots
  nodes : twice.database.nodes = once.database.nodes
  externals : twice.database.externals = once.database.externals ++ once.announced
  count : twice.initializeRoutes.1 = once.initializeRoutes.1
  routes : ∀ (i : Nat) (r : Router), once.routers[i]? = some r → ∃ own added, SetsApart own added ∧
    once.initializeRoutes.2.routers[i]? = some (r.install (own ++ once.database.externals.flatMap added)) ∧
    twice.initializeRoutes.2.routers[i]? = some (r.install (own ++ twice.database.externals.flatMap added))
  eq_iff : twice = once ↔ once.announced = []

variable {m : Manager}

theorem ext_parts {a b : Manager} (hrouters : a.routers = b.routers) (hdb : a.database = b.database)
    (hroots : a.roots = b.roots) : a = b := by
  cases a
  cases b
  simp_all

theorem roots_buildDatabase_buildDatabase (m : Manager) : m.buildDatabase.buildDatabase.roots = m.buildDatabase.roots :=
  Distinct.merge_merge ..

theorem nodes_buildDatabase_buildDatabase (m : Manager) :
    m.buildDatabase.buildDatabase.database.nodes = m.buildDatabase.database.nodes :=
  Database.nodes_insertAll_insertAll ..

theorem externals_buildDatabase (m : Manager) :
    m.buildDatabase.database.externals = m.database.externals ++ m.announced :=
  Database.externals_insertAll ..

/-- Managers with the same routers, roots and nodes write the same, but for the routes to externals. -/
theorem exists_routes_initializeRoutes (m : Manager) {i : Nat} {r : Router} (hr : m.routers[i]? = some r) :
    ∃ own added, SetsApart own added ∧ ∀ m' : Manager, m'.WellFormed → m'.routers = m.routers → m'.roots = m.roots →
      m'.database.nodes = m.database.nodes →
        m'.initializeRoutes.2.routers[i]? = some (r.install (own ++ m'.database.externals.flatMap added)) := by
  by_cases hi : i ∈ m.roots
  · obtain ⟨own, added, h⟩ := m.database.exists_addsByExternal r.interfaces.resolve r.id
    refine ⟨own, added, h.toSetsApart, fun m' hm' hrouters hroots hnodes => ?_⟩
    rw [(calculated_initializeRoutes hm').router, hrouters, hr, Option.map_some, if_pos (hroots ▸ hi), Router.calculated,
      h.routes _ hnodes]
  · -- a router that is no root keeps its table
    refine ⟨[], _, setsApart_nil fun _ hx => absurd hx List.not_mem_nil, fun m' hm' hrouters hroots _ => ?_⟩
    rw [(calculated_initializeRoutes hm').router, hrouters, hr, Option.map_some, if_neg (hroots ▸ hi),
      List.flatMap_eq_nil_iff.2 fun _ _ => rfl, List.append_nil, Router.install, RoutingTable.append_nil]

/-- They count the same roots, too. -/
theorem count_initializeRoutes_of_nodes {m' : Manager} (hm : m.WellFormed) (hm' : m'.WellFormed)
    (hrouters : m'.routers = m.routers) (hroots : m'.roots = m.roots) (hnodes : m'.database.nodes = m.database.nodes) :
    m'.initializeRoutes.1 = m.initializeRoutes.1 := by
  have hcomputes : m'.computes = m.computes := funext fun i => by
    simp only [computes, hrouters, Database.hasRouter_of_nodes hnodes]
  rw [(calculated_initializeRoutes hm').count, (calculated_initializeRoutes hm).count, hroots, hcomputes]

theorem rebuilds_buildDatabase (hm : m.WellFormed) : Rebuilds m.buildDatabase m.buildDatabase.buildDatabase where
  routers := rfl
  roots := m.roots_buildDatabase_buildDatabase
  nodes := m.nodes_buildDatabase_buildDatabase
  externals := m.buildDatabase.externals_buildDatabase
  count := count_initializeRoutes_of_nodes hm.buildDatabase hm.buildDatabase.buildDatabase rfl
    m.roots_buildDatabase_buildDatabase m.nodes_buildDatabase_buildDatabase
  routes i r hr := by
    obtain ⟨own, added, hapart, h⟩ := m.buildDatabase.exists_routes_initializeRoutes hr
    exact ⟨own, added, hapart, h _ hm.buildDatabase rfl rfl rfl, h _ hm.buildDatabase.buildDatabase rfl
      m.roots_buildDatabase_buildDatabase m.nodes_buildDatabase_buildDatabase⟩
  eq_iff := by
    have hexternals := m.buildDatabase.externals_buildDatabase
    constructor
    · intro h
      rw [h] at hexternals
      exact List.self_eq_append_right.1 hexternals
    · intro hnone
      rw [hnone, List.append_nil] at hexternals
      exact ext_parts rfl (Database.ext_parts m.nodes_buildDatabase_buildDatabase hexternals)
        m.roots_buildDatabase_buildDatabase

/-- **A second build repeats the externals and nothing else**, whatever was done to the manager before. -/
theorem buildDatabase_run (ops : List Operation) :
    Rebuilds (run ops).buildDatabase (run ops).buildDatabase.buildDatabase :=
  rebuilds_buildDatabase (wellFormed_run ops)

/-- Two routers on one wire, the first with a link to a router that is not there. The second announces an
    external. -/
def announcing : List Operation :=
  [.addRouter ⟨.ofOctets 10 0 0 1, .ofList [⟨1, .ofOctets 10 1 1 1, .ofOctets 255 255 255 252⟩],
      [.node ⟨.ofOctets 10 0 0 1, .router [⟨.pointToPoint, .ofOctets 10 0 0 2, .ofOctets 10 1 1 1, 5⟩,
        ⟨.pointToPoint, .ofOctets 10 0 0 9, .ofOctets 10 1 9 1, 5⟩], .notExplored⟩], .empty⟩,
    .addRouter ⟨.ofOctets 10 0 0 2, .ofList [⟨7, .ofOctets 10 1 1 2, .ofOctets 255 255 255 252⟩],
      [.node ⟨.ofOctets 10 0 0 2, .router [⟨.pointToPoint, .ofOctets 10 0 0 1, .ofOctets 10 1 1 2, 5⟩], .notExplored⟩,
        .external ⟨.ofOctets 172 16 0 0, .ofOctets 255 240 0 0, .ofOctets 10 0 0 2, .notExplored⟩], .empty⟩]

/-- Built twice, its database holds the external twice, and the first router gets its route twice. -/
theorem announcing_repeats :
    (run announcing).buildDatabase.buildDatabase.database.externals ≠ (run announcing).buildDatabase.database.externals ∧
      (run announcing).buildDatabase.initializeRoutes.2.routers[0]?.map (·.table.routes) =
        some [.host (.ofOctets 10 1 1 2) (.ofOctets 10 1 1 2) 1 5,
          .external (.ofOctets 172 16 0 0) (.ofOctets 255 240 0 0) (.ofOctets 10 1 1 2) 1 5] ∧
      (run announcing).buildDatabase.buildDatabase.initializeRoutes.2.routers[0]?.map (·.table.routes) =
        some [.host (.ofOctets 10 1 1 2) (.ofOctets 10 1 1 2) 1 5,
          .external (.ofOctets 172 16 0 0) (.ofOctets 255 240 0 0) (.ofOctets 10 1 1 2) 1 5,
          .external (.ofOctets 172 16 0 0) (.ofOctets 255 240 0 0) (.ofOctets 10 1 1 2) 1 5] := by
  decide +kernel

end Manager

end LinkState
