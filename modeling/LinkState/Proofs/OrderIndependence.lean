import Mathlib.Data.List.Perm.Basic
import LinkState.Proofs.Rearrangement
import LinkState.Proofs.RootIsolation

/-!
# Routes do not depend on the order of advertisements

Two runs on rearranged databases discover vertices in different orders, so handles differ. Vertices
with one identifier are `Tree.Twins`, and everything is carried over from twin to twin:

* the distance, since it is a least cost (`ExploredTwice.distance_eq`);
* the position in the order of settling (`ExploredTwice.idxOf_eq`): at the first position where the
  orders differ, either run could have settled the vertex of the other, which contradicts the ranks;
* hence the parents, and along the order the exits (`ExploredTwice.mem_exits`).

So the trees are `Tree.Alike`, and alike vertices make the same routes in some order
(`Tree.Alike.installs_perm`).
-/

namespace LinkState

/-! ## 1. Twins -/

/-- The vertices have the same identifier, each in its tree. -/
structure Tree.Twins (t t' : Tree) (h h' : Handle) (v v' : Vertex) : Prop where
  left : t.vertex? h = some v
  right : t'.vertex? h' = some v'
  id : v.id = v'.id

theorem Tree.Twins.symm {t t' : Tree} {h h' : Handle} {v v' : Vertex} (hv : t.Twins t' h h' v v') :
    t'.Twins t h' h v' v :=
  ⟨hv.right, hv.left, hv.id.symm⟩

/-- Two rearranged databases have been explored from one root. -/
structure ExploredTwice (db db' : Database) (resolve : Resolver) (root : Address) (t t' : Tree)
    (order order' : List Handle) : Prop where
  rearranged : db.Rearranged db'
  left : Explored db resolve root t order
  right : Explored db' resolve root t' order'
  router : db.hasRouter root = true

namespace ExploredTwice

variable {db db' : Database} {resolve : Resolver} {root : Address} {t t' : Tree} {order order' : List Handle}
  {p p' h h' q q' : Handle} {v v' w w' x x' : Vertex} {e : Edge}

theorem symm (hs : ExploredTwice db db' resolve root t t' order order') :
    ExploredTwice db' db resolve root t' t order' order where
  rearranged := hs.rearranged.symm
  left := hs.right
  right := hs.left
  router := by
    obtain ⟨n, hn, hk⟩ := Database.hasRouter_iff.1 hs.router
    obtain ⟨n', hn', hnk⟩ := hs.rearranged.forth hn
    exact Database.hasRouter_iff.2 ⟨n', hn', hnk.isRouter_eq.trans hk⟩

variable (hs : ExploredTwice db db' resolve root t t' order order')

include hs

/-- Either run reaches what the other does. -/
theorem exists_twin (hv : t.vertex? h = some v) : ∃ h' v', t.Twins t' h h' v v' := by
  have hreach := hs.rearranged.reachable_iff.2 (hs.left.exists_vertex_iff.1 ⟨h, v, hv, rfl⟩)
  obtain ⟨h', v', hv', hid⟩ := hs.right.exists_vertex_iff.2 hreach
  exact ⟨h', v', hv, hv', hid.symm⟩

theorem twin_unique (hv : t.Twins t' h h' v v') (hw : t.Twins t' h q' w w') : h' = q' := by
  obtain rfl : v = w := Option.some.inj (hv.left.symm.trans hw.left)
  exact hs.right.distinct hv.right hw.right (hv.id.symm.trans hw.id)

theorem kind (hv : t.Twins t' h h' v v') : v.kind.Rearranged v'.kind := by
  obtain ⟨n, hn, hk⟩ := hs.left.node hv.left
  obtain ⟨n', hn', hk'⟩ := hs.right.node hv.right
  obtain ⟨m, hm, hnm⟩ := hs.rearranged.forth hn
  rw [hv.id, hn', Option.some.injEq] at hm
  rw [← hk, ← hk', hm]
  exact hnm

theorem oneLinkEach (hv : t.vertex? h = some v) : OneLinkEach v.kind.links := by
  obtain ⟨n, hn, hk⟩ := hs.left.node hv
  exact hk ▸ hs.rearranged.oneLinkEach hn

/-- **Twins are equally far from the root.** -/
theorem distance_eq (hv : t.Twins t' h h' v v') : v.distance = v'.distance := by
  obtain ⟨c, hc⟩ := Database.exists_leastCost (hs.left.exists_vertex_iff.1 ⟨h, v, hv.left, rfl⟩)
  refine UInt32.toNat_inj.1 ?_
  rw [hs.left.distance_eq hv.left hc, hs.right.distance_eq hv.right (hs.rearranged.leastCost_iff.2 (hv.id ▸ hc))]

theorem rank_eq (hv : t.Twins t' h h' v v') : v.rank = v'.rank := by
  rw [Vertex.rank, Vertex.rank, hs.distance_eq hv, hv.id]

theorem root_iff (hv : t.Twins t' h h' v v') : h = Tree.root ↔ h' = Tree.root := by
  rw [hs.left.root_iff h v hv.left, hs.right.root_iff h' v' hv.right, hv.id]

theorem reaches (hv : t.Twins t' p p' v v') (hw : t.Twins t' h h' w w') (he : t.Reaches db p v e w) :
    t'.Reaches db' p' v' e w' where
  source := hv.right
  edge := hs.rearranged.mem_edges (hs.kind hv) he.edge
  target := he.target.trans hw.id
  distance := by rw [← hs.distance_eq hv, ← hs.distance_eq hw, he.distance]

theorem keepsPaths (hw : t.vertex? h = some w) (hr : h ≠ Tree.root) : t.KeepsPaths db resolve order h w := by
  obtain ⟨n, hn, hk⟩ := Database.hasRouter_iff.1 hs.router
  exact hs.left.keepsPaths hn hk hw hr

/-- The twin of a parent is a parent, if it is settled early enough. -/
theorem mem_parents_of_before (hv : t.Twins t' p p' v v') (hw : t.Twins t' h h' w w') (hr : h ≠ Tree.root)
    (hp : p ∈ w.parents) (hb : Before order' p' h') : p' ∈ w'.parents := by
  have hr' : h' ≠ Tree.root := fun he => hr ((hs.root_iff hw).2 he)
  obtain ⟨_, u, e, he⟩ := ((hs.keepsPaths hw.left hr).mem_parents p).1 hp
  obtain rfl : u = v := Option.some.inj (he.source.symm.trans hv.left)
  exact ((hs.symm.keepsPaths hw.right hr').mem_parents p').2 ⟨hb, v', e, hs.reaches hv hw he⟩

/-! ## 2. The order of settling -/

/-- If everything settled before `q'` has its twin settled before `h`, then `q` had its label when `h`
    was settled in its place, and `h` has the smaller rank. -/
theorem rank_lt_of_before (hv : t.Twins t' h h' v v') (hw : t.Twins t' q q' w w') (hb : Before order h q)
    (hfront : ∀ {p p' x x'}, t.Twins t' p p' x x' → Before order' p' q' → Before order p h) : v.rank < w.rank := by
  have hr : q ≠ Tree.root := fun he => Before.not_head hs.left.head (he ▸ hb)
  have hr' : q' ≠ Tree.root := fun he => hr ((hs.root_iff hw).2 he)
  obtain ⟨u', hu'⟩ := hs.right.exists_parent hw.right hr'
  have hub := hs.right.before_of_mem hw.right hr' hu'
  obtain ⟨x', hx'⟩ := Tree.exists_vertex? (hs.right.mem_order.1 hub.mem)
  obtain ⟨u, x, hx⟩ := hs.symm.exists_twin hx'
  have huh := hfront hx.symm hub
  exact hs.left.least hv.left hw.left (hs.symm.mem_parents_of_before hx hw.symm hr' hu' (huh.trans hb)) huh hb

/-- **One position**: as long as the orders agree before it, they agree there. -/
theorem idxOf_eq_of_front {i : Nat} (ih : ∀ j < i, ∀ {p p' x x'}, t.Twins t' p p' x x' →
    (order.idxOf p = j ↔ order'.idxOf p' = j)) (hv : t.Twins t' h h' v v') (hi : order.idxOf h = i) :
    order'.idxOf h' = i := by
  have front_iff : ∀ {p p' x x'}, t.Twins t' p p' x x' → (order.idxOf p < i ↔ order'.idxOf p' < i) := fun hx =>
    ⟨fun hlt => by rw [(ih _ hlt hx).1 rfl]; exact hlt, fun hlt => by rw [(ih _ hlt hx).2 rfl]; exact hlt⟩
  refine Classical.byContradiction fun hne => ?_
  have hge : ¬ order'.idxOf h' < i := fun hlt => Nat.lt_irrefl i (hi ▸ (front_iff hv).2 hlt)
  have hlt : i < order'.idxOf h' := Nat.lt_of_le_of_ne (Nat.le_of_not_lt hge) (Ne.symm hne)
  -- `q'` is what the other run settles at this position instead
  have hlen : i < order'.length := Nat.lt_of_lt_of_le hlt List.idxOf_le_length
  obtain ⟨q', hq'⟩ : ∃ q', order'.idxOf q' = i := ⟨order'[i], hs.right.nodup.idxOf_getElem i hlen⟩
  have hmem : q' ∈ order' := List.idxOf_lt_length_iff.1 (hq' ▸ hlen)
  obtain ⟨w', hw'⟩ := Tree.exists_vertex? (hs.right.mem_order.1 hmem)
  obtain ⟨q, w, hw⟩ := hs.symm.exists_twin hw'
  have hw := hw.symm
  have before_h : ∀ {p}, Before order p h ↔ order.idxOf p < i := by
    intro p
    rw [Before, hi]
  have before_q : ∀ {p}, Before order' p q' ↔ order'.idxOf p < i := by
    intro p
    rw [Before, hq']
  have hqh : h ≠ q := fun he => by
    subst he
    exact hne (hs.twin_unique hv hw ▸ hq')
  have hb : Before order h q := (Before.total (hs.left.mem_of_vertex? hv.left) hqh).resolve_right fun hqh =>
    Nat.lt_irrefl i (hq' ▸ (front_iff hw).1 (before_h.1 hqh))
  have hb' : Before order' q' h' := by
    rw [Before, hq']
    exact hlt
  -- each run could have settled at this position what the other did
  have hvw := hs.rank_lt_of_before hv hw hb fun hx hxb => before_h.2 ((front_iff hx).2 (before_q.1 hxb))
  have hwv := hs.symm.rank_lt_of_before hw.symm hv.symm hb' fun hx hxb =>
    before_q.2 ((front_iff hx.symm).1 (before_h.1 hxb))
  rw [hs.rank_eq hv, hs.rank_eq hw] at hvw
  exact Nat.lt_asymm hvw hwv

/-- **Twins are settled at the same position.** -/
theorem idxOf_eq (hv : t.Twins t' h h' v v') : order'.idxOf h' = order.idxOf h := by
  have key : ∀ i {p p' x x'}, t.Twins t' p p' x x' → (order.idxOf p = i ↔ order'.idxOf p' = i) := by
    intro i
    induction i using Nat.strongRecOn with
    | ind i ih =>
      exact fun hx => ⟨hs.idxOf_eq_of_front ih hx,
        hs.symm.idxOf_eq_of_front (fun j hj _ _ _ _ hx => (ih j hj hx.symm).symm) hx.symm⟩
  exact (key _ hv).1 rfl

theorem before_iff (hv : t.Twins t' p p' v v') (hw : t.Twins t' h h' w w') :
    Before order' p' h' ↔ Before order p h := by
  rw [Before, Before, hs.idxOf_eq hv, hs.idxOf_eq hw]

/-! ## 3. Parents and exits -/

/-- **Twins have twins as parents.** -/
theorem mem_parents (hv : t.Twins t' p p' v v') (hw : t.Twins t' h h' w w') (hp : p ∈ w.parents) :
    p' ∈ w'.parents := by
  have hr : h ≠ Tree.root := fun he => by
    obtain ⟨x, hx, _, _, _, hnil⟩ := hs.left.root
    obtain rfl : w = x := Option.some.inj (hw.left.symm.trans (he ▸ hx))
    rw [hnil] at hp
    exact List.not_mem_nil hp
  exact hs.mem_parents_of_before hv hw hr hp ((hs.before_iff hv hw).2 (hs.left.before_of_mem hw.left hr hp))

omit hs in
/-- The rules for first hops do not look at the order of links or exits. -/
theorem firstHop_of_twin {link : Option Link} {y : Exit} (hp : p = Tree.root ↔ p' = Tree.root) (hid : v.id = v'.id)
    (hvk : v.kind.Rearranged v'.kind) (hwid : w.id = w'.id) (hwk : w.kind.Rearranged w'.kind)
    (hone : OneLinkEach w.kind.links) (hexits : p ≠ Tree.root → ∀ z ∈ v.exits, z ∈ v'.exits)
    (hy : FirstHop resolve p v w link y) : FirstHop resolve p' v' w' link y := by
  have hv : ∀ {b}, v.kind.isRouter = b → v'.kind.isRouter = b := fun h => hvk.isRouter_eq.trans h
  have hw : ∀ {b}, w.kind.isRouter = b → w'.kind.isRouter = b := fun h => hwk.isRouter_eq.trans h
  have hne : p ≠ Tree.root → p' ≠ Tree.root := fun h he => h (hp.2 he)
  cases hy with
  | neighbour hpr hwr hl hb =>
    refine .neighbour (hp.1 hpr) (hw hwr) hl ?_
    rw [hwk.linkTo?_eq hone, ← hid, hb]
  | @attached mask addresses hpr hwn =>
    rw [hwn] at hwk
    obtain ⟨addresses', hwn'⟩ := hwk.exists_network
    rw [hwid]
    exact .attached (hp.1 hpr) hwn'
  | entered hpr hvn hwr hz hu hb hback =>
    exact .entered (hne hpr) (hv hvn) (hw hwr) (hexits hpr _ hz) hu (hwk.transitLinks_perm.mem_iff.1 hb)
      (hback.trans hid)
  | crossed hpr hvn hwr hz hu => exact .crossed (hne hpr) (hv hvn) (hw hwr) (hexits hpr _ hz) hu
  | inherited hpr hk hz => exact .inherited (hne hpr) (hk.imp hv hw) (hexits hpr _ hz)

/-- **Twins have the same exits**: they pass from parents to children on both sides alike. -/
theorem mem_exits : ∀ h w, t.vertex? h = some w → ∀ h' w', t.Twins t' h h' w w' → ∀ y ∈ w.exits, y ∈ w'.exits := by
  refine Explored.settleInduction order _ fun h w hw ih h' w' htwin y hy => ?_
  by_cases hr : h = Tree.root
  · rw [hs.left.exits_root (hr ▸ hw)] at hy
    exact absurd hy List.not_mem_nil
  · have hr' : h' ≠ Tree.root := fun he => hr ((hs.root_iff htwin).2 he)
    obtain ⟨p, hp, v, e, he, hfirst⟩ := ((hs.keepsPaths hw hr).mem_exits y).1 hy
    obtain ⟨p', v', hv⟩ := hs.exists_twin he.source
    refine ((hs.symm.keepsPaths htwin.right hr').mem_exits y).2
      ⟨p', hs.mem_parents hv htwin hp, v', e, hs.reaches hv htwin he, ?_⟩
    exact firstHop_of_twin (hs.root_iff hv) hv.id (hs.kind hv) htwin.id (hs.kind htwin) (hs.oneLinkEach hw)
      (fun _ => ih p v (hs.left.before_of_mem hw hr hp) he.source p' v' hv) hfirst

end ExploredTwice

/-! ## 4. Alike trees -/

/-- The vertices agree in all that does not depend on the order of advertisements. -/
structure Vertex.Alike (v v' : Vertex) : Prop where
  id : v.id = v'.id
  kind : v.kind.Rearranged v'.kind
  distance : v.distance = v'.distance
  exits : v.exits.Perm v'.exits

/-- The identifiers of the parents of a vertex. -/
def Tree.parentIds (t : Tree) (v : Vertex) : List Address :=
  v.parents.filterMap fun p => (t.vertex? p).map (·.id)

/-- **The trees have the same identifiers**, and for each of them the same distance, exits and parents. -/
structure Tree.Alike (t t' : Tree) : Prop where
  ids : (t.vertices.map (·.id)).Perm (t'.vertices.map (·.id))
  vertex : ∀ v ∈ t.vertices, ∀ v' ∈ t'.vertices, v.id = v'.id →
    v.Alike v' ∧ ∀ id, id ∈ t.parentIds v ↔ id ∈ t'.parentIds v'

namespace ExploredTwice

variable {db db' : Database} {resolve : Resolver} {root : Address} {t t' : Tree} {order order' : List Handle}
  {h h' : Handle} {v v' : Vertex} (hs : ExploredTwice db db' resolve root t t' order order')

include hs

theorem nodup_exits (hv : t.vertex? h = some v) : v.exits.Nodup := by
  by_cases hr : h = Tree.root
  · rw [hs.left.exits_root (hr ▸ hv)]
    exact .nil
  · exact (hs.keepsPaths hv hr).nodup_exits

theorem alike (hv : t.Twins t' h h' v v') : v.Alike v' where
  id := hv.id
  kind := hs.kind hv
  distance := hs.distance_eq hv
  exits := (List.perm_ext_iff_of_nodup (hs.nodup_exits hv.left) (hs.symm.nodup_exits hv.right)).2 fun y =>
    ⟨hs.mem_exits h v hv.left h' v' hv y, hs.symm.mem_exits h' v' hv.right h v hv.symm y⟩

theorem mem_parentIds (hv : t.Twins t' h h' v v') {id : Address} (hid : id ∈ t.parentIds v) :
    id ∈ t'.parentIds v' := by
  obtain ⟨p, hp, hpid⟩ := List.mem_filterMap.1 hid
  obtain ⟨u, hu, rfl⟩ := Option.map_eq_some_iff.1 hpid
  obtain ⟨p', u', htwin⟩ := hs.exists_twin hu
  exact List.mem_filterMap.2 ⟨p', hs.mem_parents htwin hv hp, by rw [htwin.right, Option.map_some, htwin.id]⟩

theorem alike_tree : t.Alike t' where
  ids := by
    refine (List.perm_ext_iff_of_nodup hs.left.isShortest.nodup hs.right.isShortest.nodup).2 fun id => ?_
    rw [hs.left.isShortest.mem_iff, hs.right.isShortest.mem_iff, hs.rearranged.reachable_iff]
  vertex v hv v' hv' hid := by
    obtain ⟨h, hv⟩ := Tree.mem_vertices.1 hv
    obtain ⟨h', hv'⟩ := Tree.mem_vertices.1 hv'
    have htwin : t.Twins t' h h' v v' := ⟨hv, hv', hid⟩
    exact ⟨hs.alike htwin, fun id => ⟨hs.mem_parentIds htwin, hs.symm.mem_parentIds htwin.symm⟩⟩

end ExploredTwice

theorem Tree.Alike.size_eq {t t' : Tree} (ha : t.Alike t') : t.size = t'.size := by
  have := ha.ids.length_eq
  rwa [List.length_map, List.length_map] at this

/-! ## 5. The routes of alike trees -/

theorem Vertex.Alike.through {w w' : Vertex} (ha : w.Alike w') (route : Address → UInt32 → Metric → Route) :
    (w.through route).Perm (w'.through route) := by
  rw [Vertex.through, Vertex.through, ha.distance]
  exact ha.exits.filterMap _

namespace Tree.Alike

variable {t t' : Tree} {root : Address} (ha : t.Alike t') (hn : (t.vertices.map (·.id)).Nodup)

include ha hn

/-- Taking every vertex to its twin rearranges the one tree into the other. -/
theorem exists_twins : ∃ g : Vertex → Vertex, (∀ v ∈ t.vertices, v.Alike (g v)) ∧ (t.vertices.map g).Perm t'.vertices := by
  have htwin : ∀ v, ∃ v', v ∈ t.vertices → v' ∈ t'.vertices ∧ v.Alike v' := fun v => by
    by_cases hv : v ∈ t.vertices
    · obtain ⟨v', hv', hid⟩ := List.mem_map.1 (ha.ids.mem_iff.1 (List.mem_map_of_mem hv))
      exact ⟨v', fun _ => ⟨hv', (ha.vertex v hv v' hv' hid.symm).1⟩⟩
    · exact ⟨v, fun h => absurd h hv⟩
  choose g hg using htwin
  have hn' : (t'.vertices.map (·.id)).Nodup := ha.ids.nodup_iff.1 hn
  have hids : (t.vertices.map g).map (·.id) = t.vertices.map (·.id) := by
    rw [List.map_map]
    exact List.map_congr_left fun v hv => ((hg v hv).2.id).symm
  refine ⟨g, fun v hv => (hg v hv).2,
    (List.perm_ext_iff_of_nodup (List.Nodup.of_map _ (hids ▸ hn)) (List.Nodup.of_map _ hn')).2 fun x => ?_⟩
  refine ⟨fun hx => ?_, fun hx => ?_⟩
  · obtain ⟨v, hv, rfl⟩ := List.mem_map.1 hx
    exact (hg v hv).1
  · obtain ⟨v, hv, hid⟩ := List.mem_map.1 (ha.ids.mem_iff.2 (List.mem_map_of_mem hx))
    have hgx : g v = x := List.inj_on_of_nodup_map hn' (hg v hv).1 hx ((hg v hv).2.id.symm.trans hid)
    exact List.mem_map.2 ⟨v, hv, hgx⟩

/-- **What alike vertices write alike**, alike trees write in some order. -/
theorem flatMap_perm {p : Vertex → Bool} {f : Vertex → List Route} (hp : ∀ {v v'}, v.Alike v' → p v = p v')
    (hf : ∀ {v v'}, v.Alike v' → (f v).Perm (f v')) :
    ((t.vertices.filter p).flatMap f).Perm ((t'.vertices.filter p).flatMap f) := by
  obtain ⟨g, hg, hperm⟩ := ha.exists_twins hn
  have hfilter : (t.vertices.map g).filter p = (t.vertices.filter p).map g := by
    rw [List.filter_map]
    exact congrArg (List.map g) (List.filter_congr fun v hv => (hp (hg v hv)).symm)
  have hleft : ((t.vertices.filter p).flatMap f).Perm (((t.vertices.map g).filter p).flatMap f) := by
    rw [hfilter, List.flatMap_map]
    exact List.Perm.flatMap_left _ fun v hv => hf (hg v (List.mem_filter.1 hv).1)
  exact hleft.trans ((hperm.filter p).flatMap_right f)

/-- Every vertex makes the same routes as its twin, in some order. -/
theorem intraArea_perm : (t.intraArea root).Perm (t'.intraArea root) := by
  refine ha.flatMap_perm hn (fun {v v'} hv => by rw [hv.id]) fun {v v'} hv => ?_
  have hk := hv.kind
  cases hvk : v.kind with
  | router links =>
    rw [hvk] at hk
    obtain ⟨links', hvk', hlinks⟩ := hk.exists_router
    rw [hvk']
    exact (hlinks.filter _).flatMap fun l _ => hv.through _
  | network mask attached =>
    rw [hvk] at hk
    obtain ⟨attached', hvk'⟩ := hk.exists_network
    rw [hvk', hv.id]
    exact hv.through _

theorem stubs_perm : (t.stubs root).Perm (t'.stubs root) := by
  refine ha.flatMap_perm hn (fun {v v'} hv => by rw [hv.id]) fun {v v'} hv => ?_
  exact (hv.kind.links_perm.filter _).flatMap fun l _ => hv.through _

theorem externals_perm (e : External) : (t.externals root e).Perm (t'.externals root e) := by
  rw [externals, externals, announcers, announcers, belowRoot, belowRoot, List.filter_filter, List.filter_filter]
  refine ha.flatMap_perm hn (fun {v v'} hv => ?_) fun {v v'} hv => hv.through _
  rw [hv.id, hv.kind.isRouter_eq]

/-- **Alike trees install the same routes**, in some order. -/
theorem installs_perm {es es' : List External}
    (hes : (es.map (·.withStatus .notExplored)).Perm (es'.map (·.withStatus .notExplored))) {routes routes' : List Route}
    (hi : t.Installs root es routes) (hi' : t'.Installs root es' routes') : routes.Perm routes' := by
  obtain ⟨intra, stub, hintra, hstub, rfl⟩ := hi
  obtain ⟨intra', stub', hintra', hstub', rfl⟩ := hi'
  refine ((hintra.trans ((ha.intraArea_perm hn).trans hintra'.symm)).append
    (hstub.trans ((ha.stubs_perm hn).trans hstub'.symm))).append ?_
  -- the routes of an external do not depend on its status
  have hstatus : ∀ (u : Tree) (xs : List External),
      xs.flatMap (u.externals root) = (xs.map (·.withStatus .notExplored)).flatMap (u.externals root) := fun u xs => by
    rw [List.flatMap_map]
    rfl
  rw [hstatus t es, hstatus t' es']
  exact hes.flatMap fun e _ => ha.externals_perm hn e

end Tree.Alike

/-! ## 6. Calculations on rearranged databases -/

namespace Database.Rearranged

variable {db db' : Database} {resolve : Resolver} {root : Address}

/-- What is no root on one side is none on the other, for the same reason. -/
theorem exists_rootRouter_error (h : db.Rearranged db') (hno : db.hasRouter root = false) :
    ∃ e, db.reset.rootRouter root = .error e ∧ db'.reset.rootRouter root = .error e := by
  cases hn : db.get? root with
  | none =>
    have hn' : db'.get? root = none := Option.eq_none_iff_forall_ne_some.2 fun n' hn' => by
      obtain ⟨n, hn'', _⟩ := h.back hn'
      rw [hn] at hn''
      cases hn''
    exact ⟨_, by rw [rootRouter, get?_reset, hn]; rfl, by rw [rootRouter, get?_reset, hn']; rfl⟩
  | some n =>
    obtain ⟨n', hn', hk⟩ := h.forth hn
    have hnk : n.kind.isRouter = false := by
      rw [hasRouter, hn, Option.any_some] at hno
      exact hno
    refine ⟨.routing (.rootIsNoRouter root), ?_, ?_⟩
    · simp [rootRouter, get?_reset, hn, hnk]
    · simp [rootRouter, get?_reset, hn', hk.isRouter_eq, hnk]

/-- **On rearranged databases** a calculation has the same outcome, routes that are the same in some
    order, and alike trees. -/
theorem calculate (h : db.Rearranged db') (resolve : Resolver) (root : Address) :
    (db.calculate resolve root).outcome = (db'.calculate resolve root).outcome ∧
      (db.calculate resolve root).routes.Perm (db'.calculate resolve root).routes ∧
      ((∃ e, (db.shortestPathTree resolve root).1 = .error e ∧ (db'.shortestPathTree resolve root).1 = .error e) ∨
        ∃ t t', (db.shortestPathTree resolve root).1 = .ok t ∧ (db'.shortestPathTree resolve root).1 = .ok t' ∧
          t.Alike t') := by
  cases hrouter : db.hasRouter root with
  | false =>
    obtain ⟨e, he, he'⟩ := h.exists_rootRouter_error hrouter
    rw [calculate_of_error db resolve he, calculate_of_error db' resolve he', shortestPathTree, shortestPathTree, he,
      he']
    exact ⟨rfl, .refl _, .inl ⟨e, rfl, rfl⟩⟩
  | true =>
    obtain ⟨n, hn, hk⟩ := hasRouter_iff.1 hrouter
    obtain ⟨n', hn', hnk⟩ := h.forth hn
    have hk' : n'.kind.isRouter = true := hnk.isRouter_eq.trans hk
    obtain ⟨t, _, routes, hrun, ht, hcalc, hi⟩ := db.exists_calculateTree resolve hn hk
    obtain ⟨t', _, routes', hrun', ht', hcalc', hi'⟩ := db'.exists_calculateTree resolve hn' hk'
    have ha : t.Alike t' := ExploredTwice.alike_tree ⟨h, ht, ht', hrouter⟩
    have hroutes : routes.Perm routes' := ha.installs_perm ht.isShortest.nodup h.externals hi hi'
    have hid : n'.id = n.id := (get?_eq_some_iff.1 hn').2.trans (get?_eq_some_iff.1 hn).2.symm
    rw [calculate_eq hn hk, calculate_eq hn' hk', h.stubCheck_eq hid hnk]
    refine and_assoc.1 ⟨?_, .inr ⟨t, t', by rw [hrun], by rw [hrun'], ha⟩⟩
    cases db.stubCheck resolve n with
    | isolated => exact ⟨rfl, .refl _⟩
    | stub exit metric => exact ⟨rfl, .refl _⟩
    | transit =>
      dsimp only
      rw [hcalc, hcalc', ha.size_eq, hroutes.length_eq]
      exact ⟨rfl, hroutes⟩

end Database.Rearranged

/-- **Routes depend on what is advertised, not on the order**: neither that of the advertisements nor
    that of the links or addresses in them. -/
theorem Database.calculate_rearrangement {ads ads' : List Advertisement}
    (h : Advertisement.Rearrangement ads ads') (hu : Advertisement.Unambiguous ads) (resolve : Resolver)
    (root : Address) :
    ((ofList ads).calculate resolve root).outcome = ((ofList ads').calculate resolve root).outcome ∧
      ((ofList ads).calculate resolve root).routes.Perm ((ofList ads').calculate resolve root).routes ∧
      ((∃ e, ((ofList ads).shortestPathTree resolve root).1 = .error e ∧
          ((ofList ads').shortestPathTree resolve root).1 = .error e) ∨
        ∃ t t', ((ofList ads).shortestPathTree resolve root).1 = .ok t ∧
          ((ofList ads').shortestPathTree resolve root).1 = .ok t' ∧ t.Alike t') :=
  (h.ofList hu).calculate resolve root

/-- A root with three ways to the router `10.0.0.4`, over two others and over a network, all of them
    equally long. -/
def meshed : List Advertisement :=
  [.node ⟨.ofOctets 10 0 0 1, .router [⟨.pointToPoint, .ofOctets 10 0 0 2, .ofOctets 10 1 1 1, 1⟩,
      ⟨.pointToPoint, .ofOctets 10 0 0 3, .ofOctets 10 1 2 1, 1⟩,
      ⟨.transitNetwork, .ofOctets 10 0 0 0, .ofOctets 10 9 0 1, 2⟩], .notExplored⟩,
    .node ⟨.ofOctets 10 0 0 2, .router [⟨.pointToPoint, .ofOctets 10 0 0 1, .ofOctets 10 1 1 2, 1⟩,
      ⟨.pointToPoint, .ofOctets 10 0 0 4, .ofOctets 10 1 3 1, 1⟩], .notExplored⟩,
    .node ⟨.ofOctets 10 0 0 3, .router [⟨.pointToPoint, .ofOctets 10 0 0 1, .ofOctets 10 1 2 2, 1⟩,
      ⟨.pointToPoint, .ofOctets 10 0 0 4, .ofOctets 10 1 4 1, 1⟩], .notExplored⟩,
    .node ⟨.ofOctets 10 0 0 4, .router [⟨.stubNetwork, .ofOctets 192 0 2 0, .ofOctets 255 255 255 0, 1⟩,
      ⟨.transitNetwork, .ofOctets 10 0 0 0, .ofOctets 10 9 0 4, 1⟩], .notExplored⟩,
    .node ⟨.ofOctets 10 0 0 0, .network (.ofOctets 255 255 255 0) [.ofOctets 10 9 0 1, .ofOctets 10 9 0 4],
      .notExplored⟩,
    .external ⟨.ofOctets 172 16 0 0, .ofOctets 255 240 0 0, .ofOctets 10 0 0 4, .notExplored⟩]

/-- The same from the last to the first, with the links and addresses in another order as well. -/
def meshedBack : List Advertisement :=
  [.external ⟨.ofOctets 172 16 0 0, .ofOctets 255 240 0 0, .ofOctets 10 0 0 4, .notExplored⟩,
    .node ⟨.ofOctets 10 0 0 0, .network (.ofOctets 255 255 255 0) [.ofOctets 10 9 0 4, .ofOctets 10 9 0 1],
      .notExplored⟩,
    .node ⟨.ofOctets 10 0 0 4, .router [⟨.transitNetwork, .ofOctets 10 0 0 0, .ofOctets 10 9 0 4, 1⟩,
      ⟨.stubNetwork, .ofOctets 192 0 2 0, .ofOctets 255 255 255 0, 1⟩], .notExplored⟩,
    .node ⟨.ofOctets 10 0 0 3, .router [⟨.pointToPoint, .ofOctets 10 0 0 4, .ofOctets 10 1 4 1, 1⟩,
      ⟨.pointToPoint, .ofOctets 10 0 0 1, .ofOctets 10 1 2 2, 1⟩], .notExplored⟩,
    .node ⟨.ofOctets 10 0 0 2, .router [⟨.pointToPoint, .ofOctets 10 0 0 4, .ofOctets 10 1 3 1, 1⟩,
      ⟨.pointToPoint, .ofOctets 10 0 0 1, .ofOctets 10 1 1 2, 1⟩], .notExplored⟩,
    .node ⟨.ofOctets 10 0 0 1, .router [⟨.transitNetwork, .ofOctets 10 0 0 0, .ofOctets 10 9 0 1, 2⟩,
      ⟨.pointToPoint, .ofOctets 10 0 0 3, .ofOctets 10 1 2 1, 1⟩,
      ⟨.pointToPoint, .ofOctets 10 0 0 2, .ofOctets 10 1 1 1, 1⟩], .notExplored⟩]

theorem rearrangement_meshedBack : Advertisement.Rearrangement meshed meshedBack := by
  refine ⟨meshed.reverse, (List.reverse_perm _).symm, ?_⟩
  refine .cons (.external rfl) (.cons (.node rfl (.network ?_)) (.cons (.node rfl (.router ?_))
    (.cons (.node rfl (.router ?_)) (.cons (.node rfl (.router ?_)) (.cons (.node rfl (.router ?_)) .nil))))) <;>
    decide

/-- The interfaces of the root. -/
def meshedInterfaces : InterfaceTable :=
  .ofList [⟨1, .ofOctets 10 1 1 1, .ofOctets 255 255 255 252⟩, ⟨2, .ofOctets 10 1 2 1, .ofOctets 255 255 255 252⟩,
    ⟨3, .ofOctets 10 0 0 0, .ofOctets 255 255 255 0⟩]

/-- Eleven routes on either side: the two trees have their vertices under different handles, and they are
    alike. -/
theorem meshed_rearranged :
    Advertisement.Rearrangement meshed meshedBack ∧ Advertisement.Unambiguous meshed ∧
      ((Database.ofList meshedBack).calculate meshedInterfaces.resolve (.ofOctets 10 0 0 1)).outcome.toOption =
        some (.tree 5 11) ∧
      ((Database.ofList meshed).calculate meshedInterfaces.resolve (.ofOctets 10 0 0 1)).routes.Perm
        ((Database.ofList meshedBack).calculate meshedInterfaces.resolve (.ofOctets 10 0 0 1)).routes ∧
      ∃ t t', ((Database.ofList meshed).shortestPathTree meshedInterfaces.resolve (.ofOctets 10 0 0 1)).1 = .ok t ∧
        ((Database.ofList meshedBack).shortestPathTree meshedInterfaces.resolve (.ofOctets 10 0 0 1)).1 = .ok t' ∧
        t.vertices.map (·.id) = [.ofOctets 10 0 0 1, .ofOctets 10 0 0 2, .ofOctets 10 0 0 3, .ofOctets 10 0 0 0,
          .ofOctets 10 0 0 4] ∧
        t'.vertices.map (·.id) = [.ofOctets 10 0 0 1, .ofOctets 10 0 0 0, .ofOctets 10 0 0 3, .ofOctets 10 0 0 2,
          .ofOctets 10 0 0 4] ∧
        t.Alike t' := by
  have hu : Advertisement.Unambiguous meshed := ⟨by decide +kernel, by decide +kernel⟩
  have hids : ((Database.ofList meshed).shortestPathTree meshedInterfaces.resolve (.ofOctets 10 0 0 1)).1.toOption.map
      (fun t => t.vertices.map (·.id)) = some [.ofOctets 10 0 0 1, .ofOctets 10 0 0 2, .ofOctets 10 0 0 3,
        .ofOctets 10 0 0 0, .ofOctets 10 0 0 4] := by decide +kernel
  have hids' : ((Database.ofList meshedBack).shortestPathTree meshedInterfaces.resolve
      (.ofOctets 10 0 0 1)).1.toOption.map (fun t => t.vertices.map (·.id)) = some [.ofOctets 10 0 0 1,
        .ofOctets 10 0 0 0, .ofOctets 10 0 0 3, .ofOctets 10 0 0 2, .ofOctets 10 0 0 4] := by decide +kernel
  obtain ⟨houtcome, hroutes, htrees⟩ := Database.calculate_rearrangement rearrangement_meshedBack hu
    meshedInterfaces.resolve (.ofOctets 10 0 0 1)
  refine ⟨rearrangement_meshedBack, hu, by rw [← houtcome]; decide +kernel, hroutes, ?_⟩
  rcases htrees with ⟨e, he, _⟩ | ⟨t, t', ht, ht', ha⟩
  · rw [he] at hids
    cases hids
  · rw [ht] at hids
    rw [ht'] at hids'
    exact ⟨t, t', ht, ht', Option.some.inj hids, Option.some.inj hids', ha⟩

end LinkState
