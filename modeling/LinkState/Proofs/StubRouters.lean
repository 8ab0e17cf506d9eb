import LinkState.Proofs.InstalledRoutes

/-!
# Stub routers need no tree

A stub router has a single link to another vertex, and its default route says no more and no less
than its shortest-path tree would:

* every edge out of the root leads to the neighbour (`edges_stub`), so the neighbour gets the exit
  that the check has found (`firstHop_uplink`);
* an exit with a next hop is handed on as it is (`firstHop_iff_of_exits`), so everything behind the
  neighbour has that exit and no other (`Explored.behind`).

The exit must have a next hop, since `0.0.0.0` would be filled in behind a network, and the link
must not lead back to the root. An isolated router is alone in its tree (`Explored.alone`).
-/

namespace LinkState

/-- **Everything below the root lies behind one exit** of the root: the neighbour at the metric of
    the link, anything else at that distance or farther. -/
structure Tree.Behind (t : Tree) (root neighbour : Address) (exit : Exit) (metric : Metric) : Prop where
  neighbour : ∃ w ∈ t.belowRoot root, w.id = neighbour ∧ w.distance = metric
  exits : ∀ w ∈ t.belowRoot root, w.exits = [exit]
  distance : ∀ w ∈ t.belowRoot root, metric ≤ w.distance

/-! ## 1. What the check says -/

/-- Only routers have links. -/
theorem NodeKind.isRouter_of_linkTo? {k : NodeKind} {id : Address} {l : Link} (h : k.linkTo? id = some l) :
    k.isRouter = true := by
  cases k with
  | router links => rfl
  | network mask attached => cases h

namespace Database

variable {db : Database} {resolve : Resolver} {root : Node} {exit : Exit} {metric : Metric}

theorem stubCheck_eq_isolated_iff : db.stubCheck resolve root = .isolated ↔ root.kind.transitLinks = [] := by
  unfold stubCheck
  constructor
  · intro h
    split at h
    · assumption
    · split at h
      · split at h <;> cases h
      · cases h
    · cases h
  · intro h
    rw [h]

/-- **A stub** has one link to another vertex, which leads to a router with a link back. -/
theorem stubCheck_eq_stub_iff : db.stubCheck resolve root = .stub exit metric ↔
    ∃ uplink m back, root.kind.transitLinks = [uplink] ∧ uplink.type = .pointToPoint ∧
      db.get? uplink.id = some m ∧ m.kind.linkTo? root.id = some back ∧
      exit = ⟨back.data, resolve uplink.data .hostMask⟩ ∧ metric = uplink.metric := by
  constructor
  · intro h
    unfold stubCheck at h
    split at h
    · cases h
    · rename_i uplink hlinks
      split at h
      · rename_i htype
        split at h
        · rename_i back hback
          obtain ⟨m, hm, hmb⟩ := Option.bind_eq_some_iff.1 hback
          cases h
          exact ⟨uplink, m, back, hlinks, htype, hm, hmb, rfl, rfl⟩
        · cases h
      · cases h
    · cases h
  · intro h
    obtain ⟨uplink, m, back, hlinks, htype, hm, hback, rfl, rfl⟩ := h
    unfold stubCheck
    rw [hlinks]
    dsimp only
    rw [if_pos htype, hm, Option.bind_some, hback]

/-- The check does not look at statuses. -/
theorem stubCheck_reset (db : Database) (resolve : Resolver) (n : Node) :
    db.reset.stubCheck resolve (n.withStatus .notExplored) = db.stubCheck resolve n := by
  have hback : ∀ id, (db.reset.get? id).bind (·.kind.linkTo? n.id) = (db.get? id).bind (·.kind.linkTo? n.id) :=
    fun id => by
      rw [get?_reset, Option.bind_map]
      rfl
  unfold stubCheck
  simp only [Node.kind_withStatus, Node.id_withStatus, hback]

/-- The only edge out of a stub is that of its link. -/
theorem edges_stub {k : NodeKind} {uplink : Link} {m : Node} (hlinks : k.transitLinks = [uplink])
    (hm : db.get? uplink.id = some m) : db.edges k = [⟨uplink.id, some uplink⟩] := by
  cases k with
  | network mask attached => cases hlinks
  | router links =>
    have hlinks : links.filter Link.isTransit = [uplink] := hlinks
    rw [edges, hlinks, List.filterMap_cons, hm, ← (get?_eq_some_iff.1 hm).2]
    rfl

end Database

/-! ## 2. One exit for all -/

section Rules

variable {resolve : Resolver} {p : Handle} {v w : Vertex} {link : Option Link} {x y : Exit}

/-- **Past the first step an exit with a next hop is handed on** as it is. -/
theorem firstHop_iff_of_exits (hp : p ≠ Tree.root) (hv : v.exits = [y]) (hy : y.nextHop ≠ .unspecified) :
    FirstHop resolve p v w link x ↔ x = y := by
  have hmem : ∀ {z}, z ∈ v.exits ↔ z = y := by
    intro z
    rw [hv, List.mem_singleton]
  refine ⟨fun hx => ?_, fun hx => ?_⟩
  · cases hx with
    | neighbour hp' => exact absurd hp' hp
    | attached hp' => exact absurd hp' hp
    | entered _ _ _ hz hu => exact absurd (hmem.1 hz ▸ hu) hy
    | crossed _ _ _ hz => exact hmem.1 hz
    | inherited _ _ hz => exact hmem.1 hz
  · subst hx
    by_cases hk : v.kind.isRouter = true ∨ w.kind.isRouter = false
    · exact .inherited hp hk (hmem.2 rfl)
    · obtain ⟨hvk, hwk⟩ := not_or.1 hk
      exact .crossed hp (Bool.not_eq_true _ ▸ hvk) (Bool.not_eq_false _ ▸ hwk) (hmem.2 rfl) hy

/-- **Over its link the root reaches the neighbour** through the exit that the check finds. -/
theorem firstHop_uplink {uplink back : Link} (hback : w.kind.linkTo? v.id = some back) :
    FirstHop resolve Tree.root v w (some uplink) x ↔ x = ⟨back.data, resolve uplink.data .hostMask⟩ := by
  have hw := NodeKind.isRouter_of_linkTo? hback
  refine ⟨fun hx => ?_, fun hx => ?_⟩
  · cases hx with
    | neighbour _ _ hl hb =>
      rw [hback] at hb
      cases hl
      cases hb
      rfl
    | attached _ hk =>
      rw [hk] at hw
      cases hw
    | entered hp => exact absurd rfl hp
    | crossed hp => exact absurd rfl hp
    | inherited hp => exact absurd rfl hp
  · subst hx
    exact .neighbour rfl hw rfl hback

end Rules

namespace Explored

variable {db : Database} {resolve : Resolver} {root : Address} {t : Tree} {order : List Handle} {n : Node}

section Stub

variable (ht : Explored db resolve root t order) (hn : db.get? root = some n) {uplink back : Link} {m : Node}
  (hlinks : n.kind.transitLinks = [uplink]) (hm : db.get? uplink.id = some m)
  (hback : m.kind.linkTo? root = some back)

include ht hn hlinks hm

theorem edges_root_stub {v : Vertex} (hv : t.vertex? Tree.root = some v) :
    db.edges v.kind = [⟨uplink.id, some uplink⟩] :=
  ht.kind_root hn hv ▸ Database.edges_stub hlinks hm

include hback

/-- Out of the root of a stub only the neighbour is reached, at the metric of the link. -/
theorem reaches_root_stub {v w : Vertex} {e : Edge} (he : t.Reaches db Tree.root v e w) {h : Handle}
    (hw : t.vertex? h = some w) : w.distance = uplink.metric ∧
      ∀ x, FirstHop resolve Tree.root v w e.link x ↔ x = ⟨back.data, resolve uplink.data .hostMask⟩ := by
  have hedge := he.edge
  rw [ht.edges_root_stub hn hlinks hm he.source, List.mem_singleton] at hedge
  subst hedge
  refine ⟨?_, fun x => firstHop_uplink ?_⟩
  · rw [← he.distance, ht.distance_root he.source]
    exact Metric.zero_extend _
  · obtain ⟨m', hm', hk⟩ := ht.node hw
    rw [← he.target, hm, Option.some.injEq] at hm'
    rw [← hk, ← hm', ht.id_root he.source, hback]

/-- **One exit for all**: it passes from the root to the neighbour and from a parent to its child. -/
theorem exits_stub (hk : n.kind.isRouter = true) (hnext : back.data ≠ .unspecified) :
    ∀ h w, t.vertex? h = some w → h ≠ Tree.root →
      w.exits = [⟨back.data, resolve uplink.data .hostMask⟩] ∧ uplink.metric.toNat ≤ w.distance.toNat := by
  refine settleInduction order _ fun h w hw ih hr => ?_
  have hkeep := ht.keepsPaths hn hk hw hr
  have hparent : ∀ {p v e}, p ∈ w.parents → t.Reaches db p v e w → uplink.metric.toNat ≤ w.distance.toNat ∧
      ∀ x, FirstHop resolve p v w e.link x ↔ x = ⟨back.data, resolve uplink.data .hostMask⟩ := by
    intro p v e hp he
    by_cases hpr : p = Tree.root
    · subst hpr
      obtain ⟨hd, hfirst⟩ := ht.reaches_root_stub hn hlinks hm hback he hw
      exact ⟨Nat.le_of_eq (congrArg _ hd.symm), hfirst⟩
    · obtain ⟨hexits, hle⟩ := ih p v ((hkeep.mem_parents p).1 hp).1 he.source hpr
      refine ⟨Nat.le_trans hle ?_, fun x => firstHop_iff_of_exits hpr hexits hnext⟩
      rw [← he.distance]
      exact Metric.le_extend _ _
  obtain ⟨p, hp⟩ := ht.exists_parent hw hr
  obtain ⟨_, v, e, he⟩ := (hkeep.mem_parents p).1 hp
  refine ⟨Distinct.eq_singleton hkeep.nodup_exits fun x => ?_, (hparent hp he).1⟩
  rw [hkeep.mem_exits]
  refine ⟨fun hx => ?_, fun hx => ⟨p, hp, v, e, he, ((hparent hp he).2 x).2 hx⟩⟩
  obtain ⟨q, hq, u, f, hf, hx⟩ := hx
  exact ((hparent hq hf).2 x).1 hx

/-- **Every vertex below a stub lies behind its link.** -/
theorem behind (hk : n.kind.isRouter = true) (hloop : uplink.id ≠ root) (hnext : back.data ≠ .unspecified) :
    t.Behind root uplink.id ⟨back.data, resolve uplink.data .hostMask⟩ uplink.metric := by
  have hall := ht.exits_stub hn hlinks hm hback hk hnext
  obtain ⟨v, hv, _, hvd, _⟩ := ht.root
  have he : ⟨uplink.id, some uplink⟩ ∈ db.edges v.kind :=
    ht.edges_root_stub hn hlinks hm hv ▸ List.mem_singleton.2 rfl
  obtain ⟨k, w, hw, hid⟩ := ht.closed hv he
  have hkr : k ≠ Tree.root := fun hkr => hloop (hid.symm.trans (ht.id_root (hkr ▸ hw)))
  have hle := ht.distance_le_of_edge hv he hw hid
  rw [hvd, Metric.zero_extend] at hle
  refine ⟨⟨w, ht.mem_belowRoot.2 ⟨k, hw, hkr⟩, hid, ?_⟩, fun w hw => ?_, fun w hw => ?_⟩
  · exact UInt32.toNat_inj.1 (Nat.le_antisymm hle (hall k w hw hkr).2)
  · obtain ⟨h, hw, hr⟩ := ht.mem_belowRoot.1 hw
    exact (hall h w hw hr).1
  · obtain ⟨h, hw, hr⟩ := ht.mem_belowRoot.1 hw
    exact UInt32.le_iff_toNat_le.2 (hall h w hw hr).2

end Stub

/-- **An isolated root is alone in its tree.** -/
theorem alone (ht : Explored db resolve root t order) (hn : db.get? root = some n)
    (hlinks : n.kind.transitLinks = []) (hk : n.kind.isRouter = true) : t.vertices.map (·.id) = [root] := by
  have hall : ∀ h w, t.vertex? h = some w → h = Tree.root := by
    refine settleInduction order _ fun h w hw ih => Classical.byContradiction fun hr => ?_
    obtain ⟨p, hp⟩ := ht.exists_parent hw hr
    obtain ⟨hb, v, e, he⟩ := ((ht.keepsPaths hn hk hw hr).mem_parents p).1 hp
    obtain rfl := ih p v hb he.source
    have hedge := he.edge
    rw [ht.kind_root hn he.source] at hedge
    cases hkind : n.kind with
    | network mask attached =>
      rw [hkind] at hk
      cases hk
    | router links =>
      have hnil : links.filter Link.isTransit = [] := by
        rw [hkind] at hlinks
        exact hlinks
      rw [hkind, Database.edges, hnil] at hedge
      cases hedge
  obtain ⟨v, hv, hid, _⟩ := ht.root
  obtain ⟨vs⟩ := t
  rcases vs with _ | ⟨u, _ | ⟨u', us⟩⟩
  · cases hv
  · cases hv
    exact congrArg (fun id => [id]) hid
  · cases hall 1 u' rfl

end Explored

/-! ## 3. The default route and the tree -/

/-- **The default route stands for the routes of the tree**: those all leave through the exit, and
    without an interface there are none on either side. -/
structure Exit.StandsFor (exit : Exit) (metric : Metric) (written routes : List Route) : Prop where
  leaves : ∀ r ∈ routes, r.nextHop = exit.nextHop ∧ exit.interface = some r.interface
  default : ∀ i, exit.interface = some i →
    written = [.network .unspecified .unspecified exit.nextHop i metric]
  silent : exit.interface = none → written = [] ∧ routes = []

theorem defaultRoute_of_some {exit : Exit} {i : UInt32} (h : exit.interface = some i) (metric : Metric) :
    defaultRoute exit metric = [.network .unspecified .unspecified exit.nextHop i metric] := by
  rw [defaultRoute, h]
  rfl

theorem defaultRoute_of_none {exit : Exit} (h : exit.interface = none) (metric : Metric) :
    defaultRoute exit metric = [] := by
  rw [defaultRoute, h]
  rfl

namespace Database

/-- A tree starts from cleared statuses. -/
theorem calculateTree_reset (db : Database) (resolve : Resolver) (root : Address) :
    db.reset.calculateTree resolve root = db.calculateTree resolve root := by
  rw [calculateTree, calculateTree, calculateTreeInto, calculateTreeInto, shortestPathTree, shortestPathTree,
    reset_reset]

section Calculate

variable {db : Database} {resolve : Resolver} {root : Address} {n : Node} (hn : db.get? root = some n)
  (hk : n.kind.isRouter = true)

include hn hk

/-- The check decides how a root is calculated. -/
theorem calculate_eq : db.calculate resolve root =
    match db.stubCheck resolve n with
    | .isolated => ⟨.ok .isolated, [], db.reset⟩
    | .stub exit metric => ⟨.ok (.stub exit), defaultRoute exit metric, db.reset⟩
    | .transit => db.calculateTree resolve root := by
  rw [calculate, calculateInto, rootRouter_reset hn hk]
  dsimp only
  rw [stubCheck_reset]
  cases db.stubCheck resolve n with
  | isolated => rfl
  | stub exit metric =>
    dsimp only
    rw [RoutingTable.writeAll_eq]
    rfl
  | transit => exact db.calculateTree_reset resolve root

theorem calculate_of_isolated (hcheck : db.stubCheck resolve n = .isolated) :
    db.calculate resolve root = ⟨.ok .isolated, [], db.reset⟩ := by
  rw [calculate_eq hn hk, hcheck]

theorem calculate_of_stub {exit : Exit} {metric : Metric} (hcheck : db.stubCheck resolve n = .stub exit metric) :
    db.calculate resolve root = ⟨.ok (.stub exit), defaultRoute exit metric, db.reset⟩ := by
  rw [calculate_eq hn hk, hcheck]

theorem calculate_of_transit (hcheck : db.stubCheck resolve n = .transit) :
    db.calculate resolve root = db.calculateTree resolve root := by
  rw [calculate_eq hn hk, hcheck]

end Calculate

/-- **The fast path agrees with the tree.** Where the check finds a stub whose link does not lead
    back to it and whose exit has a next hop, everything in the tree lies behind that exit, and the
    default route stands for the routes of the tree. An isolated router is alone in its tree. -/
theorem calculate_agrees (db : Database) (resolve : Resolver) {root : Address} {n : Node}
    (hn : db.get? root = some n) (hk : n.kind.isRouter = true) :
    ∃ t db' routes, db.shortestPathTree resolve root = (.ok t, db') ∧
      db.calculateTree resolve root = ⟨.ok (.tree t.size routes.length), routes, db'⟩ ∧
      (∀ exit metric, db.stubCheck resolve n = .stub exit metric → (∀ l ∈ n.kind.transitLinks, l.id ≠ root) →
        exit.nextHop ≠ .unspecified →
          (∃ uplink, n.kind.transitLinks = [uplink] ∧ t.Behind root uplink.id exit metric) ∧
          ∃ written, db.calculate resolve root = ⟨.ok (.stub exit), written, db.reset⟩ ∧
            exit.StandsFor metric written routes) ∧
      (db.stubCheck resolve n = .isolated →
        t.vertices.map (·.id) = [root] ∧ routes = [] ∧
          db.calculate resolve root = ⟨.ok .isolated, [], db.reset⟩) := by
  have hid := (get?_eq_some_iff.1 hn).2
  obtain ⟨t, db', routes, hrun, ht, hcalc, hi⟩ := db.exists_calculateTree resolve hn hk
  refine ⟨t, db', routes, hrun, hcalc, fun exit metric hcheck hloop hnext => ?_, fun hcheck => ?_⟩
  · obtain ⟨uplink, m, back, hlinks, _, hm, hback, rfl, rfl⟩ := stubCheck_eq_stub_iff.1 hcheck
    have hbehind := ht.behind hn hlinks hm (hid ▸ hback) hk (hloop uplink (hlinks ▸ List.mem_cons_self)) hnext
    have hleaves : ∀ r ∈ routes, r.nextHop = back.data ∧ resolve uplink.data .hostMask = some r.interface := by
      intro r hr
      obtain ⟨w, hw, x, hx, hnh, hif, _⟩ := hi.exists_exit hr
      rw [hbehind.exits w hw, List.mem_singleton] at hx
      subst hx
      exact ⟨hnh.symm, hif⟩
    refine ⟨⟨uplink, hlinks, hbehind⟩, _, calculate_of_stub hn hk hcheck, hleaves,
      fun i hx => defaultRoute_of_some hx _,
      fun hx => ⟨defaultRoute_of_none hx _, List.eq_nil_iff_forall_not_mem.2 fun r hr => ?_⟩⟩
    exact absurd ((hleaves r hr).2.symm.trans hx) (by simp)
  · have halone := ht.alone hn (stubCheck_eq_isolated_iff.1 hcheck) hk
    refine ⟨halone, List.eq_nil_iff_forall_not_mem.2 fun r hr => ?_, calculate_of_isolated hn hk hcheck⟩
    obtain ⟨w, hw, _⟩ := hi.exists_exit hr
    obtain ⟨hw, hne⟩ := List.mem_filter.1 hw
    have := List.mem_map_of_mem (f := (·.id)) hw
    rw [halone, List.mem_singleton] at this
    simp [this] at hne

/-- A stub before a router, a network and another router that announces an external, and a router
    of its own with nothing but a stub network. -/
def outpost : Database :=
  .ofList [
    .node ⟨.ofOctets 10 0 0 1, .router [⟨.stubNetwork, .ofOctets 198 51 100 0, .ofOctets 255 255 255 0, 1⟩,
      ⟨.pointToPoint, .ofOctets 10 0 0 2, .ofOctets 10 1 1 1, 5⟩], .inTree⟩,
    .node ⟨.ofOctets 10 0 0 2, .router [⟨.pointToPoint, .ofOctets 10 0 0 1, .ofOctets 10 1 1 2, 7⟩,
      ⟨.transitNetwork, .ofOctets 10 9 0 2, .ofOctets 10 9 0 2, 2⟩], .notExplored⟩,
    .node ⟨.ofOctets 10 0 0 3, .router [⟨.transitNetwork, .ofOctets 10 9 0 2, .ofOctets 10 9 0 3, 2⟩,
      ⟨.stubNetwork, .ofOctets 192 0 2 0, .ofOctets 255 255 255 0, 1⟩], .candidate⟩,
    .node ⟨.ofOctets 10 0 0 9, .router [⟨.stubNetwork, .ofOctets 203 0 113 0, .ofOctets 255 255 255 0, 1⟩],
      .notExplored⟩,
    .node ⟨.ofOctets 10 9 0 2, .network (.ofOctets 255 255 255 0) [.ofOctets 10 9 0 2, .ofOctets 10 9 0 3],
      .notExplored⟩,
    .external ⟨.ofOctets 172 16 0 0, .ofOctets 255 240 0 0, .ofOctets 10 0 0 3, .notExplored⟩]

/-- The interfaces of the stub. -/
def outpostInterfaces : InterfaceTable := .ofList [⟨4, .ofOctets 10 1 1 1, .ofOctets 255 255 255 252⟩]

/-- Its default route stands for the four routes of its tree; the isolated router has none. -/
theorem outpost_agrees :
    (∃ n, outpost.get? (.ofOctets 10 0 0 1) = some n ∧ n.kind.isRouter = true ∧
      ∃ t db' routes, outpost.shortestPathTree outpostInterfaces.resolve (.ofOctets 10 0 0 1) = (.ok t, db') ∧
        outpost.calculateTree outpostInterfaces.resolve (.ofOctets 10 0 0 1) = ⟨.ok (.tree t.size 4), routes, db'⟩ ∧
        (∃ uplink, n.kind.transitLinks = [uplink] ∧
          t.Behind (.ofOctets 10 0 0 1) uplink.id ⟨.ofOctets 10 1 1 2, some 4⟩ 5) ∧
        (outpost.calculate outpostInterfaces.resolve (.ofOctets 10 0 0 1)).routes =
          [.network .unspecified .unspecified (.ofOctets 10 1 1 2) 4 5] ∧
        ∀ r ∈ routes, r.nextHop = .ofOctets 10 1 1 2 ∧ r.interface = 4) ∧
    ∃ n, outpost.get? (.ofOctets 10 0 0 9) = some n ∧ n.kind.isRouter = true ∧
      ∃ t db', outpost.shortestPathTree outpostInterfaces.resolve (.ofOctets 10 0 0 9) = (.ok t, db') ∧
        t.vertices.map (·.id) = [.ofOctets 10 0 0 9] ∧
        outpost.calculate outpostInterfaces.resolve (.ofOctets 10 0 0 9) = ⟨.ok .isolated, [], outpost.reset⟩ := by
  obtain ⟨n, hn, hnk⟩ : ∃ n, outpost.get? (.ofOctets 10 0 0 1) = some n ∧ n.kind.isRouter = true := ⟨_, rfl, rfl⟩
  obtain ⟨m, hm, hmk⟩ : ∃ m, outpost.get? (.ofOctets 10 0 0 9) = some m ∧ m.kind.isRouter = true := ⟨_, rfl, rfl⟩
  have hstub : outpost.stubCheck outpostInterfaces.resolve n = .stub ⟨.ofOctets 10 1 1 2, some 4⟩ 5 := by
    cases hn
    decide +kernel
  have hloop : ∀ l ∈ n.kind.transitLinks, l.id ≠ .ofOctets 10 0 0 1 := by
    cases hn
    decide +kernel
  have hisolated : outpost.stubCheck outpostInterfaces.resolve m = .isolated := by
    cases hm
    decide +kernel
  have hcount : (outpost.calculateTree outpostInterfaces.resolve (.ofOctets 10 0 0 1)).routes.length = 4 := by
    decide +kernel
  obtain ⟨t, db', routes, hrun, hcalc, hagrees, _⟩ := outpost.calculate_agrees outpostInterfaces.resolve hn hnk
  obtain ⟨u, db'', _, hrun', _, _, halone⟩ := outpost.calculate_agrees outpostInterfaces.resolve hm hmk
  obtain ⟨hbehind, written, hfast, hstands⟩ := hagrees _ _ hstub hloop (by decide +kernel)
  have hlength : routes.length = 4 := by
    rw [hcalc] at hcount
    exact hcount
  rw [hlength] at hcalc
  have hleaves : ∀ r ∈ routes, r.nextHop = .ofOctets 10 1 1 2 ∧ r.interface = 4 := fun r hr =>
    ⟨(hstands.leaves r hr).1, (Option.some.inj (hstands.leaves r hr).2).symm⟩
  exact ⟨⟨n, hn, hnk, t, db', routes, hrun, hcalc, hbehind, by rw [hfast]; exact hstands.default 4 rfl, hleaves⟩,
    m, hm, hmk, u, db'', hrun', (halone hisolated).1, (halone hisolated).2.2⟩

end Database

end LinkState
