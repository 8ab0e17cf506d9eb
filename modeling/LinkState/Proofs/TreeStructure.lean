import Mathlib.Logic.Relation
import LinkState.Proofs.Arenas

/-!
# The structure of a shortest-path tree

A candidate records its parents while it is still open, and they may be replaced; a vertex becomes a
child of its parents once, when it is settled. The finished tree shows none of this: it is a directed
acyclic graph in which parents and children are two sides of one relation, with the root as its only
source (`Tree.WellBuilt`).

* `Linked.mem_parentsOf_iff`: parents and children agree at every handle;
* `Explored.before_of_mem_parentsOf`: a parent is settled before its child, and is no further away;
* `Explored.acyclic`: so no vertex is its own ancestor. Distances would not tell: around a cycle of
  cost 0, or at the limit, they are all the same.
-/

namespace LinkState

/-! ## 1. Well-built trees -/

namespace Tree

/-- The parents of the vertex under a handle; outside the arena there are none. -/
def parentsOf (t : Tree) (h : Handle) : List Handle := ((t.vertex? h).map (·.parents)).getD []

theorem mem_parentsOf {t : Tree} {p c : Handle} :
    p ∈ t.parentsOf c ↔ ∃ w, t.vertex? c = some w ∧ p ∈ w.parents := by
  unfold parentsOf
  cases t.vertex? c <;> simp

theorem parentsOf_of_vertex? {t : Tree} {h : Handle} {v : Vertex} (hv : t.vertex? h = some v) :
    t.parentsOf h = v.parents := by
  rw [parentsOf, hv]
  rfl

/-- **How the tree of a root is built**, where `order` are its handles as they were settled. -/
structure WellBuilt (t : Tree) (root : Address) (order : List Handle) : Prop where
  /-- The root has handle 0, no exits and no parents. -/
  root : ∃ v, t.vertex? Tree.root = some v ∧ v.id = root ∧ v.distance = 0 ∧ v.exits = [] ∧ v.parents = []
  parent : ∀ h v, t.vertex? h = some v → h ≠ Tree.root → v.parents ≠ []
  mem_iff : ∀ p c, p ∈ t.parentsOf c ↔ c ∈ t.childrenOf p
  nodup_parents : ∀ c, (t.parentsOf c).Nodup
  nodup_children : ∀ p, (t.childrenOf p).Nodup
  /-- Every handle is settled once. -/
  settled : order.Perm (List.range t.size)
  earlier : ∀ p c, p ∈ t.parentsOf c → Before order p c
  nearer : ∀ p c, p ∈ t.parentsOf c →
    ∃ v w, t.vertex? p = some v ∧ t.vertex? c = some w ∧ v.distance ≤ w.distance
  /-- No vertex is its own ancestor. -/
  acyclic : ∀ h, ¬ Relation.TransGen (fun p c => p ∈ t.parentsOf c) h h
  descends : ∀ h < t.size, Descends t.childrenOf Tree.root h
  /-- The depth-first walk comes past every handle once, and past the root first. -/
  depthFirst : ∃ handles t', t.depthFirst = (some handles, t') ∧ handles.Perm (List.range t.size) ∧
    handles.head? = some Tree.root

/-- **Parents and children agree** where every vertex is settled. -/
theorem Linked.mem_parentsOf_iff {t : Tree} {order : List Handle} (hl : t.Linked order)
    (hall : ∀ h v, t.vertex? h = some v → h ∈ order) (p c : Handle) : p ∈ t.parentsOf c ↔ c ∈ t.childrenOf p := by
  rw [mem_parentsOf, hl.mem_iff]
  refine ⟨fun hx => ?_, fun hx => ?_⟩
  · obtain ⟨w, hw, hp⟩ := hx
    exact ⟨hall c w hw, w.label, label?_of_vertex? hw, hp⟩
  · obtain ⟨_, v, hv, hp⟩ := hx
    obtain ⟨w, hw, rfl⟩ := label?_eq_some.1 hv
    exact ⟨w, hw, hp⟩

end Tree

/-! ## 2. Parents come before -/

namespace Explored

variable {db : Database} {resolve : Resolver} {root : Address} {t : Tree} {order : List Handle}

/-- A vertex that has a parent is not the root. -/
theorem ne_root_of_mem_parentsOf (ht : Explored db resolve root t order) {p c : Handle} (hp : p ∈ t.parentsOf c) :
    c ≠ Tree.root := by
  intro hc
  obtain ⟨v, hv, _, _, _, hnil⟩ := ht.root
  rw [hc, Tree.parentsOf_of_vertex? hv, hnil] at hp
  cases hp

/-- **A parent is settled before its child**, and is no further away. -/
theorem before_of_mem_parentsOf (ht : Explored db resolve root t order) {p c : Handle} (hp : p ∈ t.parentsOf c) :
    Before order p c ∧ ∃ v w, t.vertex? p = some v ∧ t.vertex? c = some w ∧ v.distance ≤ w.distance := by
  obtain ⟨w, hw, hpw⟩ := Tree.mem_parentsOf.1 hp
  obtain ⟨o, ho, hd, rfl⟩ := ht.exists_offer hw (ht.ne_root_of_mem_parentsOf hp) hpw
  refine ⟨ho.before, o.source, w, ho.source, hw, ?_⟩
  rw [← hd]
  exact source_distance_le o

/-- Every ancestor is settled before. -/
theorem before_of_ancestor (ht : Explored db resolve root t order) {a h : Handle}
    (hd : Relation.TransGen (fun p c => p ∈ t.parentsOf c) a h) : Before order a h := by
  induction hd with
  | single hp => exact (ht.before_of_mem_parentsOf hp).1
  | tail _ hp ih => exact ih.trans (ht.before_of_mem_parentsOf hp).1

/-- **No vertex is its own ancestor.** -/
theorem acyclic (ht : Explored db resolve root t order) (h : Handle) :
    ¬ Relation.TransGen (fun p c => p ∈ t.parentsOf c) h h :=
  fun hd => Before.irrefl (ht.before_of_ancestor hd)

theorem nodup_parentsOf (ht : Explored db resolve root t order) (c : Handle) : (t.parentsOf c).Nodup := by
  cases hw : t.vertex? c with
  | none =>
    rw [Tree.parentsOf, hw]
    exact .nil
  | some w =>
    rw [Tree.parentsOf_of_vertex? hw]
    by_cases hc : c = Tree.root
    · obtain ⟨v, hv, _, _, _, hnil⟩ := ht.root
      rw [← hc, hw, Option.some.injEq] at hv
      rw [hv, hnil]
      exact .nil
    · exact (ht.sumsUp hw hc).nodup_parents

/-! ## 3. The whole tree -/

/-- **The tree of a run is well built.** -/
theorem wellBuilt (ht : Explored db resolve root t order) (hl : t.Linked order) (hb : t.Built) :
    t.WellBuilt root order where
  root := ht.root
  parent h v hv hr := by
    obtain ⟨p, hp⟩ := ht.exists_parent hv hr
    exact List.ne_nil_of_mem hp
  mem_iff := hl.mem_parentsOf_iff fun _ _ => ht.mem_of_vertex?
  nodup_parents := ht.nodup_parentsOf
  nodup_children := hb.nodup
  settled := ht.perm_range
  earlier _ _ hp := (ht.before_of_mem_parentsOf hp).1
  nearer _ _ hp := (ht.before_of_mem_parentsOf hp).2
  acyclic := ht.acyclic
  descends h hh := by
    obtain ⟨w, hw⟩ := Tree.exists_vertex? hh
    exact ht.descends hl h w hw
  depthFirst := by
    obtain ⟨handles, t', hwalk, _, hperm⟩ := ht.exists_depthFirst hl
    exact ⟨handles, t', hwalk, hperm, Tree.head?_walk hwalk⟩

end Explored

/-- **The shortest-path tree of every router is well built.** -/
theorem Database.shortestPathTree_wellBuilt (db : Database) (resolve : Resolver) {root : Address} {n : Node}
    (hn : db.get? root = some n) (hk : n.kind.isRouter = true) :
    ∃ t db', db.shortestPathTree resolve root = (.ok t, db') ∧ t.WellBuilt root (db.settleOrder resolve root) := by
  obtain ⟨t, db', hrun, ht, _⟩ := db.exists_explored resolve hn hk
  exact ⟨t, db', hrun, ht.wellBuilt (linked_shortestPathTree hrun) (built_shortestPathTree hrun)⟩

/-- A domain in which ways cost nothing or reach the limit: three routers in a ring at no cost, two
    more at the limit, and a network at the limit that is reached from the root and from both. -/
def Database.ring : Database :=
  .ofList [
    .node ⟨.ofOctets 10 0 0 1, .router [⟨.pointToPoint, .ofOctets 10 0 0 2, .ofOctets 10 1 2 1, 0⟩,
      ⟨.pointToPoint, .ofOctets 10 0 0 3, .ofOctets 10 1 3 1, 0⟩,
      ⟨.transitNetwork, .ofOctets 10 9 0 1, .ofOctets 10 9 0 1, .limit⟩], .notExplored⟩,
    .node ⟨.ofOctets 10 0 0 2, .router [⟨.pointToPoint, .ofOctets 10 0 0 3, .ofOctets 10 2 3 2, 0⟩,
      ⟨.pointToPoint, .ofOctets 10 0 0 1, .ofOctets 10 1 2 2, 0⟩], .notExplored⟩,
    .node ⟨.ofOctets 10 0 0 3, .router [⟨.pointToPoint, .ofOctets 10 0 0 1, .ofOctets 10 1 3 3, 0⟩,
      ⟨.pointToPoint, .ofOctets 10 0 0 2, .ofOctets 10 2 3 3, 0⟩,
      ⟨.pointToPoint, .ofOctets 10 0 0 4, .ofOctets 10 3 4 3, .limit⟩], .notExplored⟩,
    .node ⟨.ofOctets 10 0 0 4, .router [⟨.pointToPoint, .ofOctets 10 0 0 5, .ofOctets 10 4 5 4, 9⟩,
      ⟨.transitNetwork, .ofOctets 10 9 0 1, .ofOctets 10 9 0 4, 7⟩], .notExplored⟩,
    .node ⟨.ofOctets 10 0 0 5, .router [⟨.pointToPoint, .ofOctets 10 0 0 4, .ofOctets 10 4 5 5, 9⟩,
      ⟨.transitNetwork, .ofOctets 10 9 0 1, .ofOctets 10 9 0 5, 1⟩], .notExplored⟩,
    .node ⟨.ofOctets 10 9 0 1, .network (.ofOctets 255 255 255 0) [.ofOctets 10 9 0 1, .ofOctets 10 9 0 4,
      .ofOctets 10 9 0 5], .notExplored⟩]

/-- Of two vertices at the same distance that lead to each other the one settled first is the parent. -/
theorem Database.ring_wellBuilt :
    ∃ n, ring.get? (.ofOctets 10 0 0 1) = some n ∧ n.kind.isRouter = true ∧
      ∃ t db', ring.shortestPathTree InterfaceTable.empty.resolve (.ofOctets 10 0 0 1) = (.ok t, db') ∧
        t.vertices.map (fun v => (v.distance, v.parents)) =
          [(0, []), (0, [0]), (0, [0, 1]), (.limit, [0, 4, 5]), (.limit, [2]), (.limit, [4])] ∧
        t.WellBuilt (.ofOctets 10 0 0 1) (ring.settleOrder InterfaceTable.empty.resolve (.ofOctets 10 0 0 1)) := by
  obtain ⟨n, hn, hk⟩ : ∃ n, ring.get? (.ofOctets 10 0 0 1) = some n ∧ n.kind.isRouter = true := ⟨_, rfl, rfl⟩
  have hvertices : (ring.shortestPathTree InterfaceTable.empty.resolve (.ofOctets 10 0 0 1)).1.toOption.map
      (fun t => t.vertices.map fun v => (v.distance, v.parents)) =
        some [(0, []), (0, [0]), (0, [0, 1]), (.limit, [0, 4, 5]), (.limit, [2]), (.limit, [4])] := by
    decide +kernel
  obtain ⟨t, db', hrun, hbuilt⟩ := ring.shortestPathTree_wellBuilt InterfaceTable.empty.resolve hn hk
  rw [hrun] at hvertices
  exact ⟨n, hn, hk, t, db', hrun, Option.some.inj hvertices, hbuilt⟩

end LinkState
