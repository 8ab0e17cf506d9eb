import LinkState.Proofs.Explored

/-!
# Distances are least costs

A path of the topology has an exact cost, and a reachable node has a `LeastCost`. An explored tree
has one vertex for every reachable node, and the distance of that vertex is the least cost, held at
the limit of metrics (`Explored.isShortest`).

* `Explored.exists_path`: a distance is the cost of a path, since a vertex is reached over a parent;
* `Explored.exists_vertex_of_path`: no path is shorter, since no edge is.

Metrics may be zero and links may be one-way, parallel or lead nowhere.
-/

namespace LinkState

namespace Database

/-- Paths are put together and their costs add up. -/
theorem Path.trans {db : Database} {u v w : Address} {a b : Nat} (hu : db.Path u v a) (hv : db.Path v w b) :
    db.Path u w (a + b) := by
  induction hv with
  | start _ => exact hu
  | step _ hn he ih =>
    rw [← Nat.add_assoc]
    exact .step ih hn he

/-- The least cost of a path from `u` to `w`. -/
structure LeastCost (db : Database) (u w : Address) (cost : Nat) : Prop where
  path : db.Path u w cost
  le : ∀ c, db.Path u w c → cost ≤ c

theorem exists_leastCost {db : Database} {u w : Address} (h : db.Reachable u w) : ∃ c, db.LeastCost u w c := by
  obtain ⟨c, hc⟩ := h
  induction c using Nat.strongRecOn with
  | ind c ih =>
    by_cases hlt : ∃ c', c' < c ∧ db.Path u w c'
    · obtain ⟨c', hc', hp⟩ := hlt
      exact ih c' hc' hp
    · exact ⟨c, hc, fun c' hp => Nat.le_of_not_lt fun hc' => hlt ⟨c', hc', hp⟩⟩

end Database

namespace Explored

variable {db : Database} {resolve : Resolver} {root : Address} {t : Tree} {order : List Handle}

/-- **A distance is the cost of a path**, held at the limit. -/
theorem exists_path (ht : Explored db resolve root t order) : ∀ h w, t.vertex? h = some w →
    ∃ c, db.Path root w.id c ∧ w.distance.toNat = min Metric.limit.toNat c := by
  refine settleInduction order _ fun h w hw ih => ?_
  by_cases hr : h = Tree.root
  · subst hr
    obtain ⟨n, hn, _⟩ := ht.node hw
    have hid := ht.id_root hw
    refine ⟨0, ?_, ?_⟩
    · rw [hid] at hn ⊢
      exact .start (by rw [hn]; rfl)
    · rw [ht.distance_root hw]
      rfl
  · obtain ⟨o, ho, hd⟩ := (ht.sumsUp hw hr).attained
    obtain ⟨c, hp, hc⟩ := ih o.origin o.source ho.before ho.source
    obtain ⟨n, hn, hk⟩ := ht.node ho.source
    refine ⟨c + o.edge.cost.toNat, ?_, ?_⟩
    · rw [← ho.target]
      exact .step hp hn (hk ▸ ho.edge)
    · rw [← hd, Offer.distance, Metric.toNat_extend, hc]
      omega

/-- **Every path ends at a vertex of the tree**, whose distance is at most its cost. -/
theorem exists_vertex_of_path (ht : Explored db resolve root t order) {id : Address} {c : Nat}
    (hp : db.Path root id c) : ∃ h w, t.vertex? h = some w ∧ w.id = id ∧ w.distance.toNat ≤ c := by
  induction hp with
  | start _ =>
    obtain ⟨v, hv, hid, hd, _⟩ := ht.root
    exact ⟨Tree.root, v, hv, hid, by rw [hd]; exact Nat.zero_le _⟩
  | @step id c n e _ hn he ih =>
    obtain ⟨p, v, hv, hid, hle⟩ := ih
    obtain ⟨m, hm, hk⟩ := ht.node hv
    have hnm : m = n := by
      rw [hid, hn, Option.some.injEq] at hm
      exact hm.symm
    have he' : e ∈ db.edges v.kind := hk ▸ hnm ▸ he
    obtain ⟨h, w, hw, hwt⟩ := ht.closed hv he'
    refine ⟨h, w, hw, hwt, ?_⟩
    have := ht.distance_le_of_edge hv he' hw hwt
    rw [Metric.toNat_extend] at this
    omega

/-- The vertices of the tree are the reachable nodes. -/
theorem exists_vertex_iff (ht : Explored db resolve root t order) {id : Address} :
    (∃ h w, t.vertex? h = some w ∧ w.id = id) ↔ db.Reachable root id := by
  refine ⟨fun hx => ?_, fun hx => ?_⟩
  · obtain ⟨h, w, hw, rfl⟩ := hx
    obtain ⟨c, hp, _⟩ := ht.exists_path h w hw
    exact ⟨c, hp⟩
  · obtain ⟨c, hp⟩ := hx
    obtain ⟨h, w, hw, hid, _⟩ := ht.exists_vertex_of_path hp
    exact ⟨h, w, hw, hid⟩

/-- **The distance of a vertex is its least cost**, held at the limit. -/
theorem distance_eq (ht : Explored db resolve root t order) {h : Handle} {w : Vertex}
    (hw : t.vertex? h = some w) {c : Nat} (hc : db.LeastCost root w.id c) :
    w.distance.toNat = min Metric.limit.toNat c := by
  obtain ⟨c', hp', hd⟩ := ht.exists_path h w hw
  obtain ⟨k, v, hv, hid, hle⟩ := ht.exists_vertex_of_path hc.path
  have hvw := ht.eq_of_id hv hw hid
  have := hc.le c' hp'
  rw [hvw] at hle
  omega

end Explored

/-! ## Shortest-path trees -/

/-- **What a shortest-path tree is**: it has one vertex for every reachable node and no other, and
    the distance of a vertex is its least cost, held at the limit. -/
structure Tree.IsShortest (t : Tree) (db : Database) (root : Address) : Prop where
  nodup : (t.vertices.map (·.id)).Nodup
  mem_iff : ∀ id, id ∈ t.vertices.map (·.id) ↔ db.Reachable root id
  node : ∀ v ∈ t.vertices, ∃ n, db.get? v.id = some n ∧ n.kind = v.kind
  distance : ∀ v ∈ t.vertices, ∃ c, db.LeastCost root v.id c ∧ v.distance.toNat = min Metric.limit.toNat c

/-- **The statuses of a finished run**: the reachable nodes are in the tree, and everything else,
    externals included, is unexplored. Nothing but statuses differs from the database `db`. -/
structure Database.MarksReachable (db' db : Database) (root : Address) : Prop where
  content : db'.reset = db.reset
  inTree_iff : ∀ n ∈ db'.nodes, n.status = .inTree ↔ db.Reachable root n.id
  notExplored_iff : ∀ n ∈ db'.nodes, n.status = .notExplored ↔ ¬ db.Reachable root n.id
  not_candidate : ∀ n ∈ db'.nodes, n.status ≠ .candidate
  externals : ∀ e ∈ db'.externals, e.status = .notExplored

theorem Tree.mem_vertices {t : Tree} {v : Vertex} : v ∈ t.vertices ↔ ∃ h, t.vertex? h = some v :=
  List.mem_iff_getElem?

/-- Where an identifier leads to one handle the identifiers of the arena do not repeat. -/
theorem Tree.nodup_ids {t : Tree}
    (hdist : ∀ {h k v w}, t.vertex? h = some v → t.vertex? k = some w → v.id = w.id → h = k) :
    (t.vertices.map (·.id)).Nodup := by
  refine List.pairwise_map.2 (List.pairwise_iff_getElem.2 fun h k hh hk hlt he => ?_)
  exact Nat.ne_of_lt hlt (hdist (List.getElem?_eq_getElem hh) (List.getElem?_eq_getElem hk) he)

theorem Database.reset_mapStatus (db : Database) (f : Node → Status) : (db.mapStatus f).reset = db.reset :=
  ext_parts (by simp [reset, mapStatus, Node.withStatus]) rfl

namespace Explored

variable {db : Database} {resolve : Resolver} {root : Address} {t : Tree} {order : List Handle}

theorem isShortest (ht : Explored db resolve root t order) : t.IsShortest db root where
  nodup := Tree.nodup_ids ht.distinct
  mem_iff id := by
    rw [← ht.exists_vertex_iff, List.mem_map]
    refine ⟨fun hx => ?_, fun hx => ?_⟩
    · obtain ⟨v, hv, hid⟩ := hx
      obtain ⟨h, hh⟩ := Tree.mem_vertices.1 hv
      exact ⟨h, v, hh, hid⟩
    · obtain ⟨h, v, hv, hid⟩ := hx
      exact ⟨v, Tree.mem_vertices.2 ⟨h, hv⟩, hid⟩
  node v hv := by
    obtain ⟨h, hh⟩ := Tree.mem_vertices.1 hv
    exact ht.node hh
  distance v hv := by
    obtain ⟨h, hh⟩ := Tree.mem_vertices.1 hv
    obtain ⟨c, hp, _⟩ := ht.exists_path h v hh
    obtain ⟨c, hc⟩ := Database.exists_leastCost ⟨c, hp⟩
    exact ⟨c, hc, ht.distance_eq hh hc⟩

theorem marksReachable (ht : Explored db resolve root t order) {st : Address → Status} (hst : t.Marks st) :
    (db.reset.mapStatus fun n => st n.id).MarksReachable db root := by
  have hreach : ∀ {id}, db.Reachable root id → st id = .inTree := fun hr => by
    obtain ⟨h, v, hv, rfl⟩ := ht.exists_vertex_iff.2 hr
    exact hst.vertex hv
  have hnot : ∀ {id}, ¬ db.Reachable root id → st id = .notExplored := fun hr =>
    hst.absent fun h v hv hid => hr (ht.exists_vertex_iff.1 ⟨h, v, hv, hid⟩)
  have hnode : ∀ n ∈ (db.reset.mapStatus fun n => st n.id).nodes, n.status = st n.id := fun n hn => by
    obtain ⟨m, _, rfl⟩ := List.mem_map.1 hn
    rfl
  refine ⟨?_, fun n hn => ?_, fun n hn => ?_, fun n hn => ?_, fun e he => ?_⟩
  · rw [Database.reset_mapStatus, Database.reset_reset]
  · rw [hnode n hn]
    refine ⟨fun hs => Classical.byContradiction fun hr => ?_, hreach⟩
    rw [hnot hr] at hs
    cases hs
  · rw [hnode n hn]
    refine ⟨fun hs hr => ?_, hnot⟩
    rw [hreach hr] at hs
    cases hs
  · rw [hnode n hn]
    by_cases hr : db.Reachable root n.id
    · rw [hreach hr]
      decide
    · rw [hnot hr]
      decide
  · obtain ⟨x, _, rfl⟩ := List.mem_map.1 he
    rfl

end Explored

/-- **Every root that is a router gets its shortest-path tree**, and the statuses are then those of
    the reachable nodes, whatever they were before. -/
theorem Database.shortestPathTree_isShortest (db : Database) (resolve : Resolver) {root : Address} {n : Node}
    (hn : db.get? root = some n) (hk : n.kind.isRouter = true) :
    ∃ t db', db.shortestPathTree resolve root = (.ok t, db') ∧ t.IsShortest db root ∧
      db'.MarksReachable db root := by
  obtain ⟨t, _, hrun, ht, st, rfl, hst⟩ := db.exists_explored resolve hn hk
  exact ⟨t, _, hrun, ht.isShortest, ht.marksReachable hst⟩

/-- A domain with a link at no cost, parallel links, a link to its own router, one to an absent
    router, links of one direction only, costs beyond the limit, an unreachable router, and the
    statuses of an earlier run. -/
def Database.irregular : Database :=
  .ofList [
    .node ⟨.ofOctets 10 0 0 1, .router [⟨.pointToPoint, .ofOctets 10 0 0 2, .ofOctets 10 1 1 1, 7⟩,
      ⟨.pointToPoint, .ofOctets 10 0 0 2, .ofOctets 10 1 1 5, 0⟩,
      ⟨.pointToPoint, .ofOctets 10 0 0 1, .ofOctets 10 1 1 9, 1⟩,
      ⟨.pointToPoint, .ofOctets 10 0 0 99, .ofOctets 10 1 1 13, 1⟩,
      ⟨.transitNetwork, .ofOctets 10 9 0 1, .ofOctets 10 9 0 1, 3⟩], .inTree⟩,
    .node ⟨.ofOctets 10 0 0 2, .router [⟨.pointToPoint, .ofOctets 10 0 0 3, .ofOctets 10 2 1 1, 4294967290⟩],
      .candidate⟩,
    .node ⟨.ofOctets 10 0 0 3, .router [⟨.pointToPoint, .ofOctets 10 0 0 4, .ofOctets 10 3 1 1, 100⟩],
      .notExplored⟩,
    .node ⟨.ofOctets 10 0 0 4, .router [], .inTree⟩,
    .node ⟨.ofOctets 10 0 0 5, .router [⟨.transitNetwork, .ofOctets 10 9 0 1, .ofOctets 10 9 0 5, 1⟩],
      .notExplored⟩,
    .node ⟨.ofOctets 10 0 0 6, .router [⟨.pointToPoint, .ofOctets 10 0 0 1, .ofOctets 10 6 1 1, 1⟩], .inTree⟩,
    .node ⟨.ofOctets 10 9 0 1, .network (.ofOctets 255 255 255 0) [.ofOctets 10 9 0 1, .ofOctets 10 9 0 5,
      .ofOctets 10 9 0 7], .candidate⟩,
    .external ⟨.ofOctets 172 16 0 0, .ofOctets 255 240 0 0, .ofOctets 10 0 0 4, .inTree⟩]

/-- Its tree: the cost of the way to `10.0.0.4` is held at the limit, and `10.0.0.6` is not in it. -/
theorem Database.irregular_isShortest :
    ∃ n, irregular.get? (.ofOctets 10 0 0 1) = some n ∧ n.kind.isRouter = true ∧
      ∃ t db', irregular.shortestPathTree InterfaceTable.empty.resolve (.ofOctets 10 0 0 1) = (.ok t, db') ∧
        t.vertices.map (fun v => (v.id, v.distance)) =
          [(.ofOctets 10 0 0 1, 0), (.ofOctets 10 0 0 2, 0), (.ofOctets 10 9 0 1, 3),
            (.ofOctets 10 0 0 3, 4294967290), (.ofOctets 10 0 0 5, 3), (.ofOctets 10 0 0 4, .limit)] ∧
        t.IsShortest irregular (.ofOctets 10 0 0 1) ∧ db'.MarksReachable irregular (.ofOctets 10 0 0 1) := by
  obtain ⟨n, hn⟩ : ∃ n, irregular.get? (.ofOctets 10 0 0 1) = some n := ⟨_, rfl⟩
  have hk : n.kind.isRouter = true := by
    cases hn
    rfl
  have hdistances : (irregular.shortestPathTree InterfaceTable.empty.resolve (.ofOctets 10 0 0 1)).1.toOption.map
      (fun t => t.vertices.map fun v => (v.id, v.distance)) =
        some [(.ofOctets 10 0 0 1, 0), (.ofOctets 10 0 0 2, 0), (.ofOctets 10 9 0 1, 3),
          (.ofOctets 10 0 0 3, 4294967290), (.ofOctets 10 0 0 5, 3), (.ofOctets 10 0 0 4, .limit)] := by
    decide +kernel
  obtain ⟨t, db', hrun, hshortest, hmarks⟩ :=
    irregular.shortestPathTree_isShortest InterfaceTable.empty.resolve hn hk
  rw [hrun] at hdistances
  exact ⟨n, hn, hk, t, db', hrun, Option.some.inj hdistances, hshortest, hmarks⟩

end LinkState
