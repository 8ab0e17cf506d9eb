import LinkState.Proofs.Explored

/-!
# Parents and first hops

`FirstHop` says by rules through which exit of the root a vertex `w` is reached over an edge out of
the vertex `v`:

* out of the root, to a neighbouring router (`neighbour`) or to an attached network (`attached`);
* out of a network, to a router: an exit without a next hop gets the router's own addresses on the
  network (`entered`), any other is kept (`crossed`);
* anything else inherits the exits of `v` (`inherited`).

The parents of a vertex are the vertices settled before it from which an edge leads to it at its own
distance, and its exits are the first hops over those edges (`Explored.keepsPaths`). So a property of
exits is proved along the rules (`Explored.exitInduction`).
-/

namespace LinkState

/-! ## 1. The rules -/

/-- `w` is reached over an edge out of `v`, the vertex under the handle `p`, through an exit of the
    root. The edge follows `link` if `v` is a router. -/
inductive FirstHop (resolve : Resolver) (p : Handle) (v w : Vertex) (link : Option Link) : Exit → Prop
  | neighbour {l back : Link} (hp : p = Tree.root) (hw : w.kind.isRouter = true) (hl : link = some l)
      (hb : w.kind.linkTo? v.id = some back) :
      FirstHop resolve p v w link ⟨back.data, resolve l.data .hostMask⟩
  | attached {mask : Address} {addresses : List Address} (hp : p = Tree.root)
      (hw : w.kind = .network mask addresses) :
      FirstHop resolve p v w link ⟨.unspecified, resolve w.id mask⟩
  | entered {x : Exit} {back : Link} (hp : p ≠ Tree.root) (hv : v.kind.isRouter = false)
      (hw : w.kind.isRouter = true) (hx : x ∈ v.exits) (hu : x.nextHop = .unspecified)
      (hb : back ∈ w.kind.transitLinks) (hid : back.id = v.id) :
      FirstHop resolve p v w link ⟨back.data, x.interface⟩
  | crossed {x : Exit} (hp : p ≠ Tree.root) (hv : v.kind.isRouter = false) (hw : w.kind.isRouter = true)
      (hx : x ∈ v.exits) (hu : x.nextHop ≠ .unspecified) : FirstHop resolve p v w link x
  | inherited {x : Exit} (hp : p ≠ Tree.root) (hk : v.kind.isRouter = true ∨ w.kind.isRouter = false)
      (hx : x ∈ v.exits) : FirstHop resolve p v w link x

section Rules

variable {resolve : Resolver} {p : Handle} {v w : Vertex} {link : Option Link} {x : Exit}

/-- Out of the root the rules are `neighbour` and `attached`. -/
theorem mem_firstHops_root (hl : ∃ l, link = some l) :
    x ∈ firstHops resolve true v w.node link ↔ FirstHop resolve Tree.root v w link x := by
  obtain ⟨l, rfl⟩ := hl
  cases hk : w.kind with
  | router links =>
    have hfirst : firstHops resolve true v w.node (some l) =
        (w.kind.linkTo? v.id).toList.map fun back => ⟨back.data, resolve l.data .hostMask⟩ := by
      simp only [firstHops, Vertex.node, hk, if_true, Option.bind_some]
    rw [hfirst]
    refine ⟨fun hx => ?_, fun hx => ?_⟩
    · obtain ⟨back, hb, rfl⟩ := List.mem_map.1 hx
      exact .neighbour rfl (by rw [hk]; rfl) rfl (Option.mem_toList.1 hb)
    · cases hx with
      | neighbour _ _ hl hb =>
        cases hl
        exact List.mem_map.2 ⟨_, Option.mem_toList.2 hb, rfl⟩
      | attached _ hw => cases hk.symm.trans hw
      | entered hp => exact absurd rfl hp
      | crossed hp => exact absurd rfl hp
      | inherited hp => exact absurd rfl hp
  | network mask addresses =>
    have hfirst : firstHops resolve true v w.node (some l) = [⟨.unspecified, resolve w.id mask⟩] := by
      simp only [firstHops, Vertex.node, hk, if_true]
    rw [hfirst, List.mem_singleton]
    refine ⟨fun h => ?_, fun hx => ?_⟩
    · subst h
      exact .attached rfl hk
    · cases hx with
      | neighbour _ hw => rw [hk] at hw; cases hw
      | attached _ hw =>
        cases hk.symm.trans hw
        rfl
      | entered hp => exact absurd rfl hp
      | crossed hp => exact absurd rfl hp
      | inherited hp => exact absurd rfl hp

/-- Out of any other vertex they are `entered`, `crossed` and `inherited`. -/
theorem mem_firstHops_of_ne (hp : p ≠ Tree.root) :
    x ∈ firstHops resolve false v w.node link ↔ FirstHop resolve p v w link x := by
  by_cases hn : v.kind.isRouter = false ∧ w.kind.isRouter = true
  · obtain ⟨hv, hw⟩ := hn
    have hfirst : firstHops resolve false v w.node link = v.exits.flatMap fun e =>
        if e.nextHop = .unspecified then
          (w.kind.transitLinks.filter (·.id == v.id)).map fun back => ⟨back.data, e.interface⟩
        else [e] := by
      cases hvk : v.kind with
      | router _ => rw [hvk] at hv; cases hv
      | network _ _ =>
        cases hwk : w.kind with
        | router _ => simp [firstHops, Vertex.node, hvk, hwk]
        | network _ _ => rw [hwk] at hw; cases hw
    rw [hfirst, List.mem_flatMap]
    refine ⟨fun h => ?_, fun hx => ?_⟩
    · obtain ⟨y, hy, hx⟩ := h
      split at hx
      · rename_i hu
        obtain ⟨back, hb, rfl⟩ := List.mem_map.1 hx
        obtain ⟨hb, hid⟩ := List.mem_filter.1 hb
        exact .entered hp hv hw hy hu hb (by simpa using hid)
      · rename_i hu
        rw [List.mem_singleton.1 hx]
        exact .crossed hp hv hw hy hu
    · cases hx with
      | neighbour hp' => exact absurd hp' hp
      | attached hp' => exact absurd hp' hp
      | @entered y back _ _ _ hy hu hb hid =>
        refine ⟨y, hy, ?_⟩
        rw [if_pos hu]
        exact List.mem_map.2 ⟨back, List.mem_filter.2 ⟨hb, by simpa using hid⟩, rfl⟩
      | crossed _ _ _ hy hu => exact ⟨x, hy, by rw [if_neg hu]; exact List.mem_singleton.2 rfl⟩
      | inherited _ hk =>
        rw [hv, hw] at hk
        rcases hk with hk | hk <;> cases hk
  · have hk : v.kind.isRouter = true ∨ w.kind.isRouter = false := by
      cases hv : v.kind.isRouter <;> cases hw : w.kind.isRouter <;> simp_all
    have hfirst : firstHops resolve false v w.node link = v.exits := by
      cases hvk : v.kind <;> cases hwk : w.kind <;> simp_all [firstHops, Vertex.node, NodeKind.isRouter]
    rw [hfirst]
    constructor
    · exact .inherited hp hk
    · intro hx
      cases hx with
      | neighbour hp' => exact absurd hp' hp
      | attached hp' => exact absurd hp' hp
      | entered _ hv hw => exact absurd ⟨hv, hw⟩ hn
      | crossed _ hv hw => exact absurd ⟨hv, hw⟩ hn
      | inherited _ _ hx => exact hx

/-- **The computed first hops are those of the rules.** -/
theorem mem_firstHops_iff (hl : p = Tree.root → ∃ l, link = some l) :
    x ∈ firstHops resolve (p == Tree.root) v w.node link ↔ FirstHop resolve p v w link x := by
  by_cases hp : p = Tree.root
  · subst hp
    exact mem_firstHops_root (hl rfl)
  · rw [beq_eq_false_iff_ne.2 hp]
    exact mem_firstHops_of_ne hp

/-- Past the first step a path has one first hop for each exit of its last vertex but one: the rules
    treat the exits of `v` one by one. -/
theorem firstHop_iff_of_ne (hp : p ≠ Tree.root) :
    FirstHop resolve p v w link x ↔ ∃ y ∈ v.exits, FirstHop resolve p { v with exits := [y] } w link x := by
  refine ⟨fun hx => ?_, fun h => ?_⟩
  · cases hx with
    | neighbour hp' => exact absurd hp' hp
    | attached hp' => exact absurd hp' hp
    | @entered y back _ hv hw hy hu hb hid => exact ⟨y, hy, .entered hp hv hw (List.mem_singleton.2 rfl) hu hb hid⟩
    | crossed _ hv hw hy hu => exact ⟨x, hy, .crossed hp hv hw (List.mem_singleton.2 rfl) hu⟩
    | inherited _ hk hy => exact ⟨x, hy, .inherited hp hk (List.mem_singleton.2 rfl)⟩
  · obtain ⟨y, hy, hx⟩ := h
    cases hx with
    | neighbour hp' => exact absurd hp' hp
    | attached hp' => exact absurd hp' hp
    | entered _ hv hw hm hu hb hid =>
      rw [List.mem_singleton.1 hm] at hu ⊢
      exact .entered hp hv hw hy hu hb hid
    | crossed _ hv hw hm hu =>
      rw [List.mem_singleton.1 hm] at hu ⊢
      exact .crossed hp hv hw hy hu
    | inherited _ hk hm =>
      rw [List.mem_singleton.1 hm]
      exact .inherited hp hk hy

end Rules

/-! ## 2. Over which edges a vertex is reached -/

/-- The edge `e` leads from the vertex `v`, under the handle `p`, to `w` at the distance that `w` has. -/
structure Tree.Reaches (t : Tree) (db : Database) (p : Handle) (v : Vertex) (e : Edge) (w : Vertex) : Prop where
  source : t.vertex? p = some v
  edge : e ∈ db.edges v.kind
  target : e.target = w.id
  distance : v.distance.extend e.cost = w.distance

/-- **What a vertex keeps of the paths to it**: as parents the vertices settled before it from which
    an edge reaches it, and as exits the first hops over the edges from its parents, each once. -/
structure Tree.KeepsPaths (t : Tree) (db : Database) (resolve : Resolver) (order : List Handle) (h : Handle)
    (w : Vertex) : Prop where
  nodup_parents : w.parents.Nodup
  mem_parents : ∀ p, p ∈ w.parents ↔ Before order p h ∧ ∃ v e, t.Reaches db p v e w
  nodup_exits : w.exits.Nodup
  mem_exits : ∀ x, x ∈ w.exits ↔ ∃ p ∈ w.parents, ∃ v e, t.Reaches db p v e w ∧ FirstHop resolve p v w e.link x

namespace Explored

variable {db : Database} {resolve : Resolver} {root : Address} {t : Tree} {order : List Handle}

/-- The root has the links of its advertisement. -/
theorem kind_root (ht : Explored db resolve root t order) {n : Node} (hn : db.get? root = some n) {v : Vertex}
    (hv : t.vertex? Tree.root = some v) : v.kind = n.kind := by
  obtain ⟨m, hm, hk⟩ := ht.node hv
  rw [ht.id_root hv, hn, Option.some.injEq] at hm
  rw [← hk, ← hm]

/-- The root of a run is a router. -/
theorem isRouter_root (ht : Explored db resolve root t order) {n : Node} (hn : db.get? root = some n)
    (hk : n.kind.isRouter = true) {v : Vertex} (hv : t.vertex? Tree.root = some v) :
    v.kind.isRouter = true :=
  ht.kind_root hn hv ▸ hk

/-- So every edge out of it follows a link. -/
theorem exists_link_of_root (ht : Explored db resolve root t order) {n : Node} (hn : db.get? root = some n)
    (hk : n.kind.isRouter = true) {v : Vertex} (hv : t.vertex? Tree.root = some v) {e : Edge}
    (he : e ∈ db.edges v.kind) : ∃ l, e.link = some l := by
  have hr := ht.isRouter_root hn hk hv
  cases hvk : v.kind with
  | router links =>
    rw [hvk] at he
    obtain ⟨l, _, _, _, _, rfl⟩ := Database.mem_edges_router.1 he
    exact ⟨l, rfl⟩
  | network mask attached =>
    rw [hvk] at hr
    cases hr

theorem keepsPaths (ht : Explored db resolve root t order) {n : Node} (hn : db.get? root = some n)
    (hk : n.kind.isRouter = true) {h : Handle} {w : Vertex} (hw : t.vertex? h = some w) (hr : h ≠ Tree.root) :
    t.KeepsPaths db resolve order h w := by
  have hs := ht.sumsUp hw hr
  have hparents : ∀ p, p ∈ w.parents ↔ Before order p h ∧ ∃ v e, t.Reaches db p v e w := by
    intro p
    rw [hs.mem_parents]
    refine ⟨fun hm => ?_, fun hm => ?_⟩
    · obtain ⟨o, ho, hd, rfl⟩ := hm
      exact ⟨ho.before, o.source, o.edge, ho.source, ho.edge, ho.target, hd⟩
    · obtain ⟨hb, v, e, hv, he, htgt, hd⟩ := hm
      exact ⟨⟨p, v, e⟩, ⟨hb, hv, he, htgt⟩, hd, rfl⟩
  have hrule : ∀ {p v e x}, t.Reaches db p v e w →
      (x ∈ firstHops resolve (p == Tree.root) v w.node e.link ↔ FirstHop resolve p v w e.link x) := by
    intro p v e x he
    refine mem_firstHops_iff fun hp => ?_
    exact ht.exists_link_of_root hn hk (hp ▸ he.source) he.edge
  refine ⟨hs.nodup_parents, hparents, hs.nodup_exits, fun x => ?_⟩
  rw [hs.mem_exits]
  refine ⟨fun hm => ?_, fun hm => ?_⟩
  · obtain ⟨o, ho, hd, hx⟩ := hm
    have hreach : t.Reaches db o.origin o.source o.edge w := ⟨ho.source, ho.edge, ho.target, hd⟩
    exact ⟨o.origin, (hparents _).2 ⟨ho.before, _, _, hreach⟩, _, _, hreach, (hrule hreach).1 hx⟩
  · obtain ⟨p, hp, v, e, he, hx⟩ := hm
    exact ⟨⟨p, v, e⟩, ⟨((hparents p).1 hp).1, he.source, he.edge, he.target⟩, he.distance, (hrule he).2 hx⟩

/-- **Induction over exits**: an exit of a vertex is a first hop over an edge from one of its parents,
    and a property passes to it from the exits of that parent. The root has none. -/
theorem exitInduction (ht : Explored db resolve root t order) {n : Node} (hn : db.get? root = some n)
    (hk : n.kind.isRouter = true) (P : Vertex → Exit → Prop)
    (step : ∀ {h p w v e x}, t.vertex? h = some w → h ≠ Tree.root → p ∈ w.parents → t.Reaches db p v e w →
      FirstHop resolve p v w e.link x → (∀ y ∈ v.exits, P v y) → P w x) :
    ∀ h w, t.vertex? h = some w → ∀ x ∈ w.exits, P w x := by
  refine settleInduction order _ fun h w hw ih x hx => ?_
  by_cases hr : h = Tree.root
  · rw [ht.exits_root (hr ▸ hw)] at hx
    cases hx
  · have hkeep := ht.keepsPaths hn hk hw hr
    obtain ⟨p, hp, v, e, he, hfirst⟩ := (hkeep.mem_exits x).1 hx
    exact step hw hr hp he hfirst (ih p v ((hkeep.mem_parents p).1 hp).1 he.source)

/-- Every vertex is settled once. -/
theorem perm_range (ht : Explored db resolve root t order) : order.Perm (List.range t.size) := by
  rw [List.perm_ext_iff_of_nodup ht.nodup List.nodup_range]
  intro h
  rw [List.mem_range, ht.mem_order]

end Explored

/-! ## 3. A domain with two ways -/

namespace TwoWays

/-- The router that is the root. -/
def near : Address := .ofOctets 10 0 0 1

/-- The network between the two routers. -/
def network : Address := .ofOctets 10 9 0 1

/-- Identifiers for the far router, below and above that of the network. -/
def below : Address := .ofOctets 10 0 0 3
def above : Address := .ofOctets 11 0 0 3

def nearKind (far : Address) : NodeKind :=
  .router [⟨.pointToPoint, far, .ofOctets 10 1 1 1, 2⟩, ⟨.transitNetwork, network, .ofOctets 10 9 0 1, 2⟩]

def farKind : NodeKind :=
  .router [⟨.pointToPoint, near, .ofOctets 10 1 1 2, 2⟩, ⟨.transitNetwork, network, .ofOctets 10 9 0 3, 2⟩]

def networkKind : NodeKind :=
  .network (.ofOctets 255 255 255 0) [.ofOctets 10 9 0 1, .ofOctets 10 9 0 3]

/-- Two routers, joined by a link and by a network, both at the metric 2, after an earlier run. -/
def domain (far : Address) : Database :=
  .ofList [.node ⟨near, nearKind far, .candidate⟩, .node ⟨far, farKind, .inTree⟩,
    .node ⟨network, networkKind, .notExplored⟩]

/-- The interfaces of the root, on the link and on the network. -/
def interfaces : InterfaceTable :=
  .ofList [⟨1, .ofOctets 10 1 1 1, .ofOctets 255 255 255 252⟩, ⟨2, .ofOctets 10 9 0 1, .ofOctets 255 255 255 0⟩]

theorem exists_near : ∃ n, (domain above).get? near = some n ∧ n.kind.isRouter = true := ⟨_, rfl, rfl⟩

end TwoWays

/-! ## 4. The tree of a run -/

/-- **Every vertex but the root keeps all paths that the order of settling leaves it**, over which
    it is reached from vertices settled before it. -/
theorem Database.shortestPathTree_parents_exits (db : Database) (resolve : Resolver) {root : Address} {n : Node}
    (hn : db.get? root = some n) (hk : n.kind.isRouter = true) :
    ∃ t db', db.shortestPathTree resolve root = (.ok t, db') ∧
      (db.settleOrder resolve root).Perm (List.range t.size) ∧
      (db.settleOrder resolve root).head? = some Tree.root ∧
      ∀ h w, t.vertex? h = some w → h ≠ Tree.root →
        t.KeepsPaths db resolve (db.settleOrder resolve root) h w := by
  obtain ⟨t, db', hrun, ht, _⟩ := db.exists_explored resolve hn hk
  exact ⟨t, db', hrun, ht.perm_range, ht.head, fun h w hw hr => ht.keepsPaths hn hk hw hr⟩

/-- The far router keeps the path over the link and the path over the network. -/
theorem TwoWays.far_keepsPaths :
    ∃ n, (domain above).get? near = some n ∧ n.kind.isRouter = true ∧
      ∃ t db', (domain above).shortestPathTree interfaces.resolve near = (.ok t, db') ∧
        ∃ w, t.vertex? 1 = some w ∧
          w.exits = [⟨.ofOctets 10 1 1 2, some 1⟩, ⟨.ofOctets 10 9 0 3, some 2⟩] ∧
          t.KeepsPaths (domain above) interfaces.resolve [0, 2, 1] 1 w := by
  obtain ⟨n, hn, hk⟩ := exists_near
  have horder : (domain above).settleOrder interfaces.resolve near = [0, 2, 1] := by decide +kernel
  have hexits : ((domain above).shortestPathTree interfaces.resolve near).1.toOption.bind
      (fun t => (t.vertex? 1).map (·.exits)) =
        some [⟨.ofOctets 10 1 1 2, some 1⟩, ⟨.ofOctets 10 9 0 3, some 2⟩] := by decide +kernel
  obtain ⟨t, db', hrun, _, _, hkeep⟩ :=
    (domain above).shortestPathTree_parents_exits interfaces.resolve hn hk
  rw [hrun] at hexits
  obtain ⟨w, hw, hx⟩ := Option.map_eq_some_iff.1 hexits
  rw [horder] at hkeep
  exact ⟨n, hn, hk, t, db', hrun, w, hw, hx, hkeep 1 w hw (by decide)⟩

end LinkState
