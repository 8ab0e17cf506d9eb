import LinkState.Proofs.FirstHops

/-!
# Paths of equal cost

An edge is `Tight` if the distances of its ends differ by its cost: the tight edges are the last
edges of the shortest paths. Where every link has a cost (`PositiveCosts`) and no distance is held at
the limit, a vertex has all its tight predecessors as parents if and only if it is `InTime`: every
network among them has a smaller identifier than the vertex, or there is just one of them
(`Explored.mem_parents_iff_inTime`).

* A router before the vertex is strictly nearer, so it is settled earlier.
* A network before the vertex is at the same distance, since leaving a network costs nothing. It has
  its label before anything at that distance is settled (`Explored.rank_lt_of_before_network`), so
  the identifiers say which of the two comes first.

Where every vertex is in time, the exits of a vertex are the first hops of all shortest paths to it
(`Tree.FirstOnPath`). A vertex that is late can lose exits: `TwoWays.lateFar` does.
-/

namespace LinkState

/-! ## 1. Tight edges -/

/-- Every link to another vertex has a cost. -/
def Database.PositiveCosts (db : Database) : Prop :=
  ∀ n ∈ db.nodes, ∀ l ∈ n.kind.transitLinks, 1 ≤ l.metric.toNat

instance (db : Database) : Decidable db.PositiveCosts :=
  inferInstanceAs (Decidable (∀ n ∈ db.nodes, ∀ l ∈ n.kind.transitLinks, 1 ≤ l.metric.toNat))

/-- No distance is held at the limit. -/
def Tree.BelowLimit (t : Tree) : Prop := ∀ v ∈ t.vertices, v.distance < Metric.limit

instance (t : Tree) : Decidable t.BelowLimit :=
  inferInstanceAs (Decidable (∀ v ∈ t.vertices, v.distance < Metric.limit))

/-- The edge `e` leads from the vertex `v`, under the handle `p`, to `w`, and the exact distance of
    `w` is that of `v` and the cost of the edge. -/
structure Tree.Tight (t : Tree) (db : Database) (p : Handle) (v : Vertex) (e : Edge) (w : Vertex) : Prop where
  source : t.vertex? p = some v
  edge : e ∈ db.edges v.kind
  target : e.target = w.id
  distance : v.distance.toNat + e.cost.toNat = w.distance.toNat

/-- A tight edge leads from the vertex under `p` to `w`. -/
def Tree.Precedes (t : Tree) (db : Database) (p : Handle) (w : Vertex) : Prop := ∃ v e, t.Tight db p v e w

/-- **The vertex is settled after all its tight predecessors**, as far as identifiers say: the
    networks among them have smaller ones, or there is just one predecessor. -/
def Tree.InTime (t : Tree) (db : Database) (w : Vertex) : Prop :=
  (∀ p v e, t.Tight db p v e w → v.kind.isRouter = false → v.id < w.id) ∨
    ∀ p q, t.Precedes db p w → t.Precedes db q w → p = q

theorem Tree.tight_iff_reaches {t : Tree} {db : Database} {p : Handle} {v w : Vertex} {e : Edge}
    (hlim : w.distance < Metric.limit) : t.Tight db p v e w ↔ t.Reaches db p v e w := by
  refine ⟨fun h => ?_, fun h => ?_⟩
  · obtain ⟨hv, he, ht, hd⟩ := h
    exact ⟨hv, he, ht, (Metric.extend_eq_iff hlim).2 hd⟩
  · obtain ⟨hv, he, ht, hd⟩ := h
    exact ⟨hv, he, ht, (Metric.extend_eq_iff hlim).1 hd⟩

section Nearer

variable {t : Tree} {db : Database} {p : Handle} {v w : Vertex} {e : Edge}

theorem Tree.Tight.distance_le (he : t.Tight db p v e w) : v.distance.toNat ≤ w.distance.toNat :=
  he.distance ▸ Nat.le_add_right _ _

theorem Tree.Tight.belowLimit (he : t.Tight db p v e w) (hlim : w.distance < Metric.limit) :
    v.distance < Metric.limit :=
  Nat.lt_of_le_of_lt he.distance_le hlim

end Nearer

theorem Tree.BelowLimit.vertex {t : Tree} (hlim : t.BelowLimit) {h : Handle} {w : Vertex}
    (hw : t.vertex? h = some w) : w.distance < Metric.limit :=
  hlim w (List.mem_iff_getElem?.2 ⟨h, hw⟩)

namespace Explored

variable {db : Database} {resolve : Resolver} {root : Address} {t : Tree} {order : List Handle}
  {p h : Handle} {v w : Vertex} {e : Edge}

theorem precedes_of_mem (ht : Explored db resolve root t order) (hw : t.vertex? h = some w) (hr : h ≠ Tree.root)
    (hlim : w.distance < Metric.limit) (hp : p ∈ w.parents) : t.Precedes db p w := by
  obtain ⟨o, ho, hd, rfl⟩ := ht.exists_offer hw hr hp
  exact ⟨o.source, o.edge, ho.source, ho.edge, ho.target, (Metric.extend_eq_iff hlim).1 hd⟩

/-- A vertex but the root has a parent. -/
theorem exists_parent (ht : Explored db resolve root t order) (hw : t.vertex? h = some w) (hr : h ≠ Tree.root) :
    ∃ p, p ∈ w.parents := by
  obtain ⟨o, ho, hd⟩ := (ht.sumsUp hw hr).attained
  exact ⟨o.origin, ((ht.sumsUp hw hr).mem_parents _).2 ⟨o, ho, hd, rfl⟩⟩

/-- A tight predecessor that was settled earlier is a parent. -/
theorem mem_parents_of_before (ht : Explored db resolve root t order) (hw : t.vertex? h = some w)
    (hr : h ≠ Tree.root) (hlim : w.distance < Metric.limit) (he : t.Tight db p v e w) (hb : Before order p h) :
    p ∈ w.parents :=
  ((ht.sumsUp hw hr).mem_parents p).2
    ⟨⟨p, v, e⟩, ⟨hb, he.source, he.edge, he.target⟩, (Metric.extend_eq_iff hlim).2 he.distance, rfl⟩

theorem before_of_mem (ht : Explored db resolve root t order) (hw : t.vertex? h = some w) (hr : h ≠ Tree.root)
    (hp : p ∈ w.parents) : Before order p h := by
  obtain ⟨o, ho, _, rfl⟩ := ht.exists_offer hw hr hp
  exact ho.before

/-- Links have costs, so a router is strictly nearer than what it precedes. -/
theorem distance_lt_of_tight (ht : Explored db resolve root t order) (hpos : db.PositiveCosts)
    (he : t.Tight db p v e w) (hv : v.kind.isRouter = true) : v.distance.toNat < w.distance.toNat := by
  obtain ⟨n, hn, hk⟩ := ht.node he.source
  have hcost : 1 ≤ e.cost.toNat := by
    have hedge := he.edge
    cases hvk : v.kind with
    | router links =>
      rw [hvk] at hedge
      obtain ⟨l, hl, htr, _, _, rfl⟩ := Database.mem_edges_router.1 hedge
      refine hpos n (Database.get?_eq_some_iff.1 hn).1 l ?_
      rw [hk, hvk]
      exact List.mem_filter.2 ⟨hl, htr⟩
    | network mask attached =>
      rw [hvk] at hv
      cases hv
  have := he.distance
  omega

/-- Leaving a network costs nothing. -/
theorem distance_eq_of_tight (he : t.Tight db p v e w) (hv : v.kind.isRouter = false) :
    v.distance = w.distance := by
  have hd := he.distance
  rw [Database.cost_of_mem_edges_network hv he.edge] at hd
  exact UInt32.toNat_inj.1 hd

/-- What a network precedes is a router. -/
theorem isRouter_of_tight (ht : Explored db resolve root t order) (hw : t.vertex? h = some w)
    (he : t.Tight db p v e w) (hv : v.kind.isRouter = false) : w.kind.isRouter = true := by
  obtain ⟨n, hn, hk⟩ := ht.node hw
  rw [← hk]
  exact Database.isRouter_of_mem_edges_network hv he.edge (he.target ▸ hn)

/-! ## 2. Which of two vertices at one distance comes first -/

/-- **A network has its label before anything at its distance is settled**: its parents are routers
    and strictly nearer. So a vertex that is no nearer and still comes first has the smaller rank. -/
theorem rank_lt_of_before_network (ht : Explored db resolve root t order) (hpos : db.PositiveCosts)
    (hv : t.vertex? p = some v) (hr : p ≠ Tree.root) (hk : v.kind.isRouter = false)
    (hlim : v.distance < Metric.limit) (hw : t.vertex? h = some w)
    (hle : v.distance.toNat ≤ w.distance.toNat) (hb : Before order h p) : w.rank < v.rank := by
  obtain ⟨q, hq⟩ := ht.exists_parent hv hr
  obtain ⟨x, e, he⟩ := ht.precedes_of_mem hv hr hlim hq
  have hx : x.kind.isRouter = true := by
    cases hx : x.kind.isRouter with
    | true => rfl
    | false =>
      have := ht.isRouter_of_tight hv he hx
      rw [hk] at this
      cases this
  have hlt := ht.distance_lt_of_tight hpos he hx
  exact ht.least hw hv hq (ht.before_of_distance_lt he.source hw (Nat.lt_of_lt_of_le hlt hle)) hb

section Ties

variable {n : Node} (ht : Explored db resolve root t order) (hn : db.get? root = some n)
  (hroot : n.kind.isRouter = true) (hpos : db.PositiveCosts) (hw : t.vertex? h = some w) (hr : h ≠ Tree.root)
  (hlim : w.distance < Metric.limit)

include ht hn hroot

theorem ne_root_of_network (hv : t.vertex? p = some v) (hk : v.kind.isRouter = false) : p ≠ Tree.root := by
  intro h
  subst h
  rw [ht.isRouter_root hn hroot hv] at hk
  cases hk

include hpos hw hlim

/-- A network with a smaller identifier is settled before the vertex that it precedes. -/
theorem before_of_id_lt (he : t.Tight db p v e w) (hv : v.kind.isRouter = false) (hid : v.id < w.id) :
    Before order p h := by
  have hd := distance_eq_of_tight he hv
  have hne : p ≠ h := by
    intro hx
    subst hx
    have hvw := he.source
    rw [hw, Option.some.injEq] at hvw
    exact Nat.lt_irrefl _ (hvw ▸ hid)
  rcases Before.total (ht.mem_of_vertex? he.source) hne with hb | hb
  · exact hb
  · have h1 := ht.rank_lt_of_before_network hpos he.source (ht.ne_root_of_network hn hroot he.source hv) hv
      (hd ▸ hlim) hw (Nat.le_of_eq (by rw [hd])) hb
    have h2 := Vertex.rank_lt_of_distance_eq hd hid
    exact absurd h2 (Nat.lt_asymm h1)

include hr

/-- A network with a greater identifier is settled before the vertex only if the vertex has no other
    predecessor settled before it: it is this network that the vertex is found from. -/
theorem eq_of_id_gt (he : t.Tight db p v e w) (hv : v.kind.isRouter = false) (hid : w.id < v.id)
    (hb : Before order p h) {q : Handle} (hq : t.Precedes db q w) (hqb : Before order q h) : q = p := by
  obtain ⟨x, f, hf⟩ := hq
  have hd := distance_eq_of_tight he hv
  have hnotp : ¬ Before order q p := fun hqp => by
    -- the vertex had its label from `q` when the network was settled
    have h1 := ht.least he.source hw (ht.mem_parents_of_before hw hr hlim hf hqb) hqp hb
    exact Nat.lt_asymm h1 (Vertex.rank_lt_of_distance_eq hd.symm hid)
  refine Classical.byContradiction fun hne => ?_
  have hpq : Before order p q := (Before.total hqb.mem hne).resolve_left hnotp
  cases hx : x.kind.isRouter with
  | true =>
    have hlt := ht.distance_lt_of_tight hpos hf hx
    exact hnotp (ht.before_of_distance_lt hf.source he.source (hd ▸ hlt))
  | false =>
    have hxd := distance_eq_of_tight hf hx
    have hxr := ht.ne_root_of_network hn hroot hf.source hx
    -- `p` comes before `q`, which comes before the vertex, but the ranks say the opposite
    have h1 := ht.rank_lt_of_before_network hpos hf.source hxr hx (hxd ▸ hlim) he.source
      (Nat.le_of_eq (by rw [hxd, hd])) hpq
    have h2 := ht.least hf.source hw (ht.mem_parents_of_before hw hr hlim he hb) hpq hqb
    exact Nat.lt_asymm (Nat.lt_trans h1 h2) (Vertex.rank_lt_of_distance_eq hd.symm hid)

/-! ## 3. Parents -/

/-- **A vertex has all its tight predecessors as parents if and only if it is in time.** -/
theorem mem_parents_iff_inTime : (∀ p, t.Precedes db p w → p ∈ w.parents) ↔ t.InTime db w := by
  constructor
  · intro hall
    by_cases hlost : ∃ p v e, t.Tight db p v e w ∧ v.kind.isRouter = false ∧ ¬ v.id < w.id
    · obtain ⟨p, v, e, he, hv, hid⟩ := hlost
      have hbefore : ∀ {q}, t.Precedes db q w → Before order q h := fun hq => ht.before_of_mem hw hr (hall _ hq)
      have hb := hbefore ⟨v, e, he⟩
      have hne : v.id ≠ w.id := fun heq => hb.ne (ht.distinct he.source hw heq)
      have hgt : w.id < v.id :=
        Nat.lt_of_le_of_ne (Nat.le_of_not_lt hid) fun heq => hne (Address.ext_value heq.symm)
      have hunique : ∀ {q}, t.Precedes db q w → q = p := fun hq =>
        ht.eq_of_id_gt hn hroot hpos hw hr hlim he hv hgt hb hq (hbefore hq)
      exact .inr fun q q' hq hq' => (hunique hq).trans (hunique hq').symm
    · exact .inl fun p v e he hv => Classical.byContradiction fun hid => hlost ⟨p, v, e, he, hv, hid⟩
  · rintro (hids | hunique) p ⟨v, e, he⟩
    · refine ht.mem_parents_of_before hw hr hlim he ?_
      cases hv : v.kind.isRouter with
      | true => exact ht.before_of_distance_lt he.source hw (ht.distance_lt_of_tight hpos he hv)
      | false => exact ht.before_of_id_lt hn hroot hpos hw hlim he hv (hids p v e he hv)
    · obtain ⟨q, hq⟩ := ht.exists_parent hw hr
      rw [hunique p q ⟨v, e, he⟩ (ht.precedes_of_mem hw hr hlim hq)]
      exact hq

end Ties

end Explored

/-! ## 4. Exits -/

/-- Some shortest path to the vertex leaves the root through the exit. -/
inductive Tree.FirstOnPath (t : Tree) (db : Database) (resolve : Resolver) : Vertex → Exit → Prop
  /-- The path is one edge out of the root. -/
  | leave {v w : Vertex} {e : Edge} {x : Exit} (he : t.Tight db Tree.root v e w)
      (hx : FirstHop resolve Tree.root v w e.link x) : FirstOnPath t db resolve w x
  /-- The path to `v` leaves through `y`, and goes on over a tight edge. -/
  | pass {p : Handle} {v w : Vertex} {e : Edge} {x y : Exit} (hp : p ≠ Tree.root)
      (hy : FirstOnPath t db resolve v y) (he : t.Tight db p v e w)
      (hx : FirstHop resolve p { v with exits := [y] } w e.link x) :
      FirstOnPath t db resolve w x

namespace Explored

variable {db : Database} {resolve : Resolver} {root : Address} {t : Tree} {order : List Handle} {n : Node}
  (ht : Explored db resolve root t order) (hn : db.get? root = some n) (hroot : n.kind.isRouter = true)

include ht hn hroot

/-- **Every exit is the first hop of a shortest path.** -/
theorem firstOnPath_of_mem : ∀ h w, t.vertex? h = some w → h ≠ Tree.root → w.distance < Metric.limit →
    ∀ x ∈ w.exits, t.FirstOnPath db resolve w x := by
  refine settleInduction order _ fun h w hw ih hr hlim x hx => ?_
  obtain ⟨p, hp, v, e, he, hfirst⟩ := ((ht.keepsPaths hn hroot hw hr).mem_exits x).1 hx
  have htight : t.Tight db p v e w := (Tree.tight_iff_reaches hlim).2 he
  by_cases hpr : p = Tree.root
  · subst hpr
    exact .leave htight hfirst
  · obtain ⟨y, hy, hyx⟩ := (firstHop_iff_of_ne hpr).1 hfirst
    have hpath := ih p v (ht.before_of_mem hw hr hp) he.source hpr (htight.belowLimit hlim) y hy
    exact .pass hpr hpath htight hyx

/-- **A vertex keeps the first hops of all shortest paths**, if no vertex on the way is late. -/
theorem mem_exits_of_firstOnPath (hpos : db.PositiveCosts) {w : Vertex} {x : Exit}
    (hx : t.FirstOnPath db resolve w x) : ∀ h, t.vertex? h = some w → h ≠ Tree.root → w.distance < Metric.limit →
      (∀ k v, t.vertex? k = some v → k ≠ Tree.root → v.distance.toNat ≤ w.distance.toNat → t.InTime db v) →
      x ∈ w.exits := by
  have parent : ∀ {p h v w e}, t.vertex? h = some w → h ≠ Tree.root → w.distance < Metric.limit →
      (∀ k v, t.vertex? k = some v → k ≠ Tree.root → v.distance.toNat ≤ w.distance.toNat → t.InTime db v) →
      t.Tight db p v e w → p ∈ w.parents := by
    intro p h v w e hw hr hlim hin he
    exact (ht.mem_parents_iff_inTime hn hroot hpos hw hr hlim).2 (hin h w hw hr (Nat.le_refl _)) p ⟨v, e, he⟩
  induction hx with
  | @leave v w e x he hx =>
    intro h hw hr hlim hin
    exact ((ht.keepsPaths hn hroot hw hr).mem_exits x).2
      ⟨_, parent hw hr hlim hin he, v, e, (Tree.tight_iff_reaches hlim).1 he, hx⟩
  | @pass p v w e x y hp _ he hx ih =>
    intro h hw hr hlim hin
    have hy : y ∈ v.exits := ih p he.source hp (he.belowLimit hlim)
      fun k u hu hk hku => hin k u hu hk (Nat.le_trans hku he.distance_le)
    exact ((ht.keepsPaths hn hroot hw hr).mem_exits x).2
      ⟨p, parent hw hr hlim hin he, v, e, (Tree.tight_iff_reaches hlim).1 he,
        (firstHop_iff_of_ne hp).2 ⟨y, hy, hx⟩⟩

end Explored

/-- **What a vertex keeps of the shortest paths to it.** Its parents are tight predecessors, and all
    of them if and only if it is in time; its exits are first hops of shortest paths, and all of
    them if every vertex that is no farther is in time. -/
structure Tree.KeepsShortest (t : Tree) (db : Database) (resolve : Resolver) (w : Vertex) : Prop where
  nodup_parents : w.parents.Nodup
  precedes : ∀ p ∈ w.parents, t.Precedes db p w
  all_parents_iff : (∀ p, t.Precedes db p w → p ∈ w.parents) ↔ t.InTime db w
  firstOnPath : ∀ x ∈ w.exits, t.FirstOnPath db resolve w x
  all_exits : (∀ k v, t.vertex? k = some v → k ≠ Tree.root → v.distance.toNat ≤ w.distance.toNat → t.InTime db v) →
    ∀ x, t.FirstOnPath db resolve w x → x ∈ w.exits

/-- **Where links have costs and no distance is at the limit**, a tree keeps the equal-cost paths
    that come in time. -/
theorem Database.shortestPathTree_equalCost (db : Database) (resolve : Resolver) {root : Address} {n : Node}
    (hn : db.get? root = some n) (hk : n.kind.isRouter = true) (hpos : db.PositiveCosts) :
    ∃ t db', db.shortestPathTree resolve root = (.ok t, db') ∧
      (t.BelowLimit → ∀ h w, t.vertex? h = some w → h ≠ Tree.root → t.KeepsShortest db resolve w) := by
  obtain ⟨t, db', hrun, ht, _⟩ := db.exists_explored resolve hn hk
  refine ⟨t, db', hrun, fun hlim h w hw hr => ?_⟩
  have hw' := hlim.vertex hw
  exact {
    nodup_parents := (ht.sumsUp hw hr).nodup_parents
    precedes := fun p hp => ht.precedes_of_mem hw hr hw' hp
    all_parents_iff := ht.mem_parents_iff_inTime hn hk hpos hw hr hw'
    firstOnPath := ht.firstOnPath_of_mem hn hk h w hw hr hw'
    all_exits := fun hin x hx => ht.mem_exits_of_firstOnPath hn hk hpos hx h hw hr hw' hin }

/-- Both paths to the far router are kept where the network between has the smaller identifier. -/
theorem TwoWays.far_keepsShortest :
    ∃ n, (domain above).get? near = some n ∧ n.kind.isRouter = true ∧
      (domain above).PositiveCosts ∧
      ∃ t db', (domain above).shortestPathTree interfaces.resolve near = (.ok t, db') ∧
        t.BelowLimit ∧ ∃ w, t.vertex? 1 = some w ∧ w.parents = [0, 2] ∧
          t.KeepsShortest (domain above) interfaces.resolve w := by
  obtain ⟨n, hn, hk⟩ := exists_near
  have hpos : (domain above).PositiveCosts := by decide
  have hlim : ((domain above).shortestPathTree interfaces.resolve near).1.toOption.map
      (fun t => decide t.BelowLimit) = some true := by decide +kernel
  have hparents : ((domain above).shortestPathTree interfaces.resolve near).1.toOption.bind
      (fun t => (t.vertex? 1).map (·.parents)) = some [0, 2] := by decide +kernel
  obtain ⟨t, db', hrun, hkeep⟩ :=
    (domain above).shortestPathTree_equalCost interfaces.resolve hn hk hpos
  rw [hrun] at hlim hparents
  have hlim : t.BelowLimit := of_decide_eq_true (Option.some.inj hlim)
  obtain ⟨w, hw, hp⟩ := Option.map_eq_some_iff.1 hparents
  exact ⟨n, hn, hk, hpos, t, db', hrun, hlim, w, hw, hp, hkeep hlim 1 w hw (by decide)⟩

/-- The far router where its identifier is smaller than that of the network: it is settled first. -/
def TwoWays.lateFar : Vertex :=
  { id := below, kind := farKind, distance := 2, exits := [⟨.ofOctets 10 1 1 2, some 1⟩], parents := [0] }

def TwoWays.lateNetwork : Vertex :=
  { id := network, kind := networkKind, distance := 2, exits := [⟨.unspecified, some 2⟩], parents := [0] }

def TwoWays.lateTree : Tree :=
  ⟨[{ id := near, kind := nearKind below, children := [1, 2] }, lateFar, lateNetwork]⟩

/-- **A vertex that is late loses a path**: the network precedes the far router at equal cost and is
    none of its parents, and the first hop over the network is none of its exits. -/
theorem TwoWays.far_losesPath :
    (domain below).PositiveCosts ∧ lateTree.BelowLimit ∧
      ((domain below).shortestPathTree interfaces.resolve near).1.toOption = some lateTree ∧
      lateTree.vertex? 1 = some lateFar ∧ lateTree.Precedes (domain below) 2 lateFar ∧
      2 ∉ lateFar.parents ∧
      lateTree.FirstOnPath (domain below) interfaces.resolve lateFar ⟨.ofOctets 10 9 0 3, some 2⟩ ∧
      ⟨.ofOctets 10 9 0 3, some 2⟩ ∉ lateFar.exits := by
  have hnetwork : lateTree.Tight (domain below) Tree.root _
      ⟨network, some ⟨.transitNetwork, network, .ofOctets 10 9 0 1, 2⟩⟩ lateNetwork :=
    { source := rfl, edge := by decide, target := rfl, distance := rfl }
  have hfar : lateTree.Tight (domain below) 2 lateNetwork ⟨below, none⟩ lateFar :=
    { source := rfl, edge := by decide, target := rfl, distance := rfl }
  have hne : (2 : Handle) ≠ Tree.root := by decide
  have hexit : interfaces.resolve network (.ofOctets 255 255 255 0) = some 2 := by decide
  have hback : (⟨.transitNetwork, network, .ofOctets 10 9 0 3, 2⟩ : Link) ∈ farKind.transitLinks := by decide
  have hfirst : lateTree.FirstOnPath (domain below) interfaces.resolve lateNetwork
      ⟨.unspecified, some 2⟩ := by
    rw [← hexit]
    exact .leave hnetwork (.attached rfl rfl)
  have hhop : FirstHop interfaces.resolve 2 { lateNetwork with exits := [⟨.unspecified, some 2⟩] } lateFar none
      ⟨.ofOctets 10 9 0 3, some 2⟩ :=
    @FirstHop.entered _ _ _ _ _ ⟨.unspecified, some 2⟩ ⟨.transitNetwork, network, .ofOctets 10 9 0 3, 2⟩
      hne rfl rfl List.mem_cons_self rfl hback rfl
  have hrun : ((domain below).shortestPathTree interfaces.resolve near).1.toOption = some lateTree := by
    decide +kernel
  exact ⟨by decide, by decide, hrun, rfl, ⟨_, _, hfar⟩, by decide, .pass hne hfirst hfar hhop, by decide⟩

end LinkState
