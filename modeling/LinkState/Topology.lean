import LinkState.Database

/-!
# The topology of a database

The nodes of a database are the vertices of a directed graph. A router has an edge to every node
that one of its transit links names, at the metric of the link; a network has an edge to every
router that owns one of its attached addresses, at no cost. Links and addresses that the database
does not resolve make no edge.

Statuses play no part: `edges_mapStatus`.
-/

namespace LinkState

/-- An edge out of a node; the link is there if the node is a router. -/
structure Edge where
  target : Address
  link : Option Link
deriving DecidableEq

/-- The metric of the link; leaving a network costs nothing. -/
def Edge.cost (e : Edge) : Metric :=
  match e.link with
  | some l => l.metric
  | none => 0

namespace Database

/-- The edges out of a node of the given kind, in the order of its links or addresses. -/
def edges (db : Database) : NodeKind → List Edge
  | .router links => (links.filter Link.isTransit).filterMap fun l =>
      (db.get? l.id).map fun w => ⟨w.id, some l⟩
  | .network _ attached => attached.filterMap fun a =>
      (db.getByLinkData? a).map fun w => ⟨w.id, none⟩

/-- There is a path from `u` to `w` whose metrics add up to `cost`. -/
inductive Path (db : Database) (u : Address) : Address → Nat → Prop
  | start (h : (db.get? u).isSome) : Path db u u 0
  | step {v : Address} {cost : Nat} {n : Node} {e : Edge} (p : Path db u v cost)
      (hn : db.get? v = some n) (he : e ∈ db.edges n.kind) : Path db u e.target (cost + e.cost.toNat)

/-- `w` can be reached from `u`. -/
def Reachable (db : Database) (u w : Address) : Prop := ∃ cost, Path db u w cost

theorem get?_mapStatus (db : Database) (f : Node → Status) (id : Address) :
    (db.mapStatus f).get? id = (db.get? id).map fun n => n.withStatus (f n) := by
  simp [get?, mapStatus, List.find?_map, Function.comp_def]

theorem getByLinkData?_mapStatus (db : Database) (f : Node → Status) (a : Address) :
    (db.mapStatus f).getByLinkData? a = (db.getByLinkData? a).map fun n => n.withStatus (f n) := by
  simp [getByLinkData?, mapStatus, List.find?_map, Function.comp_def]

/-- **Edges do not depend on statuses.** -/
theorem edges_mapStatus (db : Database) (f : Node → Status) (k : NodeKind) :
    (db.mapStatus f).edges k = db.edges k := by
  cases k <;> simp [edges, get?_mapStatus, getByLinkData?_mapStatus, Function.comp_def]

/-- The edges of a router are its links to stored nodes. -/
theorem mem_edges_router {db : Database} {links : List Link} {e : Edge} :
    e ∈ db.edges (.router links) ↔
      ∃ l ∈ links, l.isTransit = true ∧ ∃ w, db.get? l.id = some w ∧ e = ⟨w.id, some l⟩ := by
  refine ⟨fun h => ?_, fun hx => ?_⟩
  · obtain ⟨l, hl, he⟩ := List.mem_filterMap.1 h
    obtain ⟨w, hw, rfl⟩ := Option.map_eq_some_iff.1 he
    obtain ⟨hl, ht⟩ := List.mem_filter.1 hl
    exact ⟨l, hl, ht, w, hw, rfl⟩
  · obtain ⟨l, hl, ht, w, hw, rfl⟩ := hx
    exact List.mem_filterMap.2 ⟨l, List.mem_filter.2 ⟨hl, ht⟩, Option.map_eq_some_iff.2 ⟨w, hw, rfl⟩⟩

/-- The edges of a network are its addresses on stored routers. -/
theorem mem_edges_network {db : Database} {mask : Address} {attached : List Address} {e : Edge} :
    e ∈ db.edges (.network mask attached) ↔
      ∃ a ∈ attached, ∃ w, db.getByLinkData? a = some w ∧ e = ⟨w.id, none⟩ := by
  refine ⟨fun h => ?_, fun hx => ?_⟩
  · obtain ⟨a, ha, he⟩ := List.mem_filterMap.1 h
    obtain ⟨w, hw, rfl⟩ := Option.map_eq_some_iff.1 he
    exact ⟨a, ha, w, hw, rfl⟩
  · obtain ⟨a, ha, w, hw, rfl⟩ := hx
    exact List.mem_filterMap.2 ⟨a, ha, Option.map_eq_some_iff.2 ⟨w, hw, rfl⟩⟩

/-- Leaving a network costs nothing. -/
theorem cost_of_mem_edges_network {db : Database} {k : NodeKind} {e : Edge} (hk : k.isRouter = false)
    (he : e ∈ db.edges k) : e.cost = 0 := by
  cases k with
  | router links => cases hk
  | network mask attached =>
    obtain ⟨a, _, w, _, rfl⟩ := mem_edges_network.1 he
    rfl

/-- The edges of a network lead to routers, which alone have links. -/
theorem isRouter_of_mem_edges_network {db : Database} {k : NodeKind} {e : Edge} {n : Node}
    (hk : k.isRouter = false) (he : e ∈ db.edges k) (hn : db.get? e.target = some n) :
    n.kind.isRouter = true := by
  cases k with
  | router links => cases hk
  | network mask attached =>
    obtain ⟨a, _, w, hw, rfl⟩ := mem_edges_network.1 he
    have hwn : w = n := by
      rw [get?_eq_some_iff.2 ⟨List.mem_of_find?_eq_some hw, rfl⟩, Option.some.injEq] at hn
      exact hn
    have hlink := List.find?_some hw
    rw [hwn] at hlink
    cases hnk : n.kind with
    | router links => rfl
    | network mask attached =>
      rw [hnk] at hlink
      cases hlink

/-- An edge leads to a node of the database. -/
theorem isSome_get?_of_mem_edges {db : Database} {k : NodeKind} {e : Edge} (h : e ∈ db.edges k) :
    (db.get? e.target).isSome := by
  have key : ∀ n ∈ db.nodes, (db.get? n.id).isSome := fun n hn => by
    rw [get?_eq_some_iff.2 ⟨hn, rfl⟩]; rfl
  cases k with
  | router links =>
    obtain ⟨l, _, _, w, hw, rfl⟩ := mem_edges_router.1 h
    exact key w (get?_eq_some_iff.1 hw).1
  | network mask attached =>
    obtain ⟨a, _, w, hw, rfl⟩ := mem_edges_network.1 h
    exact key w (List.mem_of_find?_eq_some hw)

end Database

end LinkState
