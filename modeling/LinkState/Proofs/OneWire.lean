import LinkState.Proofs.StubRouters
import LinkState.Proofs.Wires

/-!
# Exits and wires

In a domain made of wires the root reaches a neighbour over a wire `used`, and the exit has the
interface at the root's end of it. The next hop is looked up among the links of the neighbour,
where the first one back to the root counts: it is on the wire `first`, which need not be `used`.

* `Tree.Composes` is this account of an exit; `Explored.exists_composes` gives it for every exit,
  and `Explored.mem_exits_of_reached` says that every wire in use makes an exit;
* `Tree.Composes.onOneWire_iff`: interface and next hop are on one wire exactly if the wire in use is
  the first;
* so all exits and all routes are on one wire if and only if no neighbour is reached at its distance
  over a wire other than the first (`Database.exits_onOneWire_iff`). Where routers are joined by one
  wire at most, that is so (`Tree.overFirstWires_of_nodup`); `ParallelWires` is a domain where it is
  not.
-/

namespace LinkState

/-! ## 1. Two wires of an exit -/

/-- One wire leads from the root's address of the interface to the next hop. -/
def Wiring.Joins (g : Wiring) (table : InterfaceTable) (root nextHop : Address) (interface : UInt32) : Prop :=
  ∃ w ∈ g.endsOf root, table.HasAddress interface w.here.address ∧ w.there.address = nextHop

instance (g : Wiring) (table : InterfaceTable) (root nextHop : Address) (interface : UInt32) :
    Decidable (g.Joins table root nextHop interface) :=
  inferInstanceAs (Decidable (∃ w ∈ g.endsOf root, table.HasAddress interface w.here.address ∧ w.there.address = nextHop))

/-- The exit has an interface, and it is on the wire of the next hop. -/
def Exit.OnOneWire (x : Exit) (g : Wiring) (table : InterfaceTable) (root : Address) : Prop :=
  ∃ i, x.interface = some i ∧ g.Joins table root x.nextHop i

/-- **How an exit comes about**: its interface is on the wire `used`, over which a neighbour has its
    distance, and its next hop on the wire `first`, the first one to that neighbour. -/
structure Tree.Composes (t : Tree) (g : Wiring) (table : InterfaceTable) (root : Address) (x : Exit)
    (used first : Wire) : Prop where
  mem : used ∈ g.endsOf root
  reached : ∃ v ∈ t.vertices, v.id = used.there.router ∧ v.distance = used.here.metric
  isFirst : g.first? root used.there.router = some first
  interface : ∃ i, x.interface = some i ∧ table.HasAddress i used.here.address
  nextHop : x.nextHop = first.there.address

/-- No neighbour has its distance over another wire than the first one to it. -/
def Tree.OverFirstWires (t : Tree) (g : Wiring) (root : Address) : Prop :=
  ∀ u ∈ g.endsOf root, (∃ v ∈ t.vertices, v.id = u.there.router ∧ v.distance = u.here.metric) →
    g.first? root u.there.router = some u

instance (t : Tree) (g : Wiring) (root : Address) : Decidable (t.OverFirstWires g root) :=
  inferInstanceAs (Decidable (∀ u ∈ g.endsOf root,
    (∃ v ∈ t.vertices, v.id = u.there.router ∧ v.distance = u.here.metric) → g.first? root u.there.router = some u))

variable {db : Database} {g : Wiring} {table : InterfaceTable} {root : Address} {t : Tree} {order : List Handle}
  {x : Exit} {u used first : Wire}

/-- **An exit is on one wire exactly if the wire in use is the first.** -/
theorem Tree.Composes.onOneWire_iff (h : t.Composes g table root x used first) :
    x.OnOneWire g table root ↔ used = first := by
  obtain ⟨i, hi, ha⟩ := h.interface
  have hused := (Wiring.mem_endsOf.1 h.mem).1
  have hfirst := (Wiring.mem_endsOf.1 (Wiring.first?_eq_some h.isFirst).1).1
  refine ⟨fun hx => ?_, fun hx => ?_⟩
  · obtain ⟨j, hj, w, hw, hwa, hnext⟩ := hx
    obtain rfl : i = j := Option.some.inj (hi.symm.trans hj)
    have hwends := (Wiring.mem_endsOf.1 hw).1
    have hwused : w = used := Wiring.eq_of_address hwends hused (hwa.unique ha)
    have hwfirst : w.reverse = first.reverse :=
      Wiring.eq_of_address (Wiring.reverse_mem_ends hwends) (Wiring.reverse_mem_ends hfirst) (hnext.trans h.nextHop)
    rw [← hwused]
    exact congrArg Wire.reverse hwfirst
  · subst hx
    exact ⟨i, hi, used, h.mem, ha, h.nextHop.symm⟩

/-- Where no two wires of the root lead to one router, every wire is the first. -/
theorem Tree.overFirstWires_of_nodup (t : Tree) (hn : ((g.endsOf root).map (·.there.router)).Nodup) :
    t.OverFirstWires g root := by
  intro u hu _
  obtain ⟨f, hf⟩ := Wiring.exists_first? hu
  obtain ⟨hfm, hfr⟩ := Wiring.first?_eq_some hf
  rw [hf, List.inj_on_of_nodup_map hn hfm hu hfr]

/-! ## 2. The exits of a tree -/

namespace Explored

/-- All vertices are routers, with the links of their ends. -/
theorem kind_of_wired {resolve : Resolver} (ht : Explored db resolve root t order) (hdb : db.Wired g) {h : Handle}
    {v : Vertex} (hv : t.vertex? h = some v) : v.kind = .router (g.links v.id) := by
  obtain ⟨n, hn, hk⟩ := ht.node hv
  obtain ⟨hmem, hid⟩ := Database.get?_eq_some_iff.1 hn
  rw [← hk, hdb.node n hmem, hid]

section Wired

variable (ht : Explored db table.resolve root t order) (hdb : db.Wired g) (htable : table.Serves g root)

include ht hdb htable

/-- **Every exit is composed of two wires** to one neighbour: behind the neighbour it is inherited,
    since there are no networks to fill it in. -/
theorem exists_composes {n : Node} (hn : db.get? root = some n) (hk : n.kind.isRouter = true) :
    ∀ h w, t.vertex? h = some w → ∀ x ∈ w.exits, ∃ used first, t.Composes g table root x used first := by
  refine settleInduction order _ fun h w hw ih x hx => ?_
  by_cases hr : h = Tree.root
  · rw [ht.exits_root (hr ▸ hw)] at hx
    cases hx
  have hkeep := ht.keepsPaths hn hk hw hr
  obtain ⟨p, hp, v, e, he, hfirst⟩ := (hkeep.mem_exits x).1 hx
  have hwk := ht.kind_of_wired hdb hw
  have hvk := ht.kind_of_wired hdb he.source
  cases hfirst with
  | @neighbour l back hp' _ hl hb =>
    subst hp'
    have hedge := he.edge
    rw [hvk, hdb.mem_edges_iff, ht.id_root he.source] at hedge
    obtain ⟨u, hu, rfl⟩ := hedge
    obtain rfl : l = u.link := (Option.some.inj hl).symm
    rw [hwk, Wiring.linkTo?_links, ht.id_root he.source, ← he.target] at hb
    obtain ⟨f, hf, rfl⟩ := Option.map_eq_some_iff.1 hb
    have hd : w.distance = u.here.metric := by
      rw [← he.distance, ht.distance_root he.source]
      exact Metric.zero_extend _
    exact ⟨u, f, hu, ⟨w, Tree.mem_vertices.2 ⟨h, hw⟩, he.target.symm, hd⟩, hf, htable.exists_resolve hu, rfl⟩
  | attached _ hnet => cases hwk.symm.trans hnet
  | entered _ hnet =>
    rw [hvk] at hnet
    cases hnet
  | crossed _ hnet =>
    rw [hvk] at hnet
    cases hnet
  | inherited _ _ hy => exact ih p v ((hkeep.mem_parents p).1 hp).1 he.source x hy

omit htable in
/-- **Every wire in use makes an exit** of the neighbour. -/
theorem mem_exits_of_reached {n : Node} (hn : db.get? root = some n) (hk : n.kind.isRouter = true)
    (hu : u ∈ g.endsOf root) {h : Handle} {w : Vertex} (hw : t.vertex? h = some w) (hid : w.id = u.there.router)
    (hd : w.distance = u.here.metric) (hf : g.first? root u.there.router = some first) :
    ⟨first.there.address, table.resolve u.here.address .hostMask⟩ ∈ w.exits := by
  obtain ⟨v, hv, hvid, hvd, _⟩ := ht.root
  have hr : h ≠ Tree.root := fun hr => by
    obtain ⟨hends, hroot⟩ := Wiring.mem_endsOf.1 hu
    exact Wiring.router_ne hends (hroot.trans ((ht.id_root (hr ▸ hw)).symm.trans hid))
  have hedge : (⟨u.there.router, some u.link⟩ : Edge) ∈ db.edges v.kind := by
    rw [ht.kind_of_wired hdb hv, hdb.mem_edges_iff, hvid]
    exact ⟨u, hu, rfl⟩
  have hreach : t.Reaches db Tree.root v ⟨u.there.router, some u.link⟩ w := ⟨hv, hedge, hid.symm, by
    rw [hvd, hd]
    exact Metric.zero_extend _⟩
  have hbefore : Before order Tree.root h :=
    (Before.total (ht.mem_of_vertex? hv) (Ne.symm hr)).resolve_right (Before.not_head ht.head)
  have hkeep := ht.keepsPaths hn hk hw hr
  refine (hkeep.mem_exits _).2 ⟨Tree.root, (hkeep.mem_parents _).2 ⟨hbefore, v, _, hreach⟩, v, _, hreach, ?_⟩
  have hback : w.kind.linkTo? v.id = some first.reverse.link := by
    rw [ht.kind_of_wired hdb hw, Wiring.linkTo?_links, hvid, hid, hf, Option.map_some]
  exact (firstHop_uplink hback).2 rfl

/-- **All exits are on one wire** if and only if only first wires are in use. -/
theorem onOneWire_iff_overFirstWires {n : Node} (hn : db.get? root = some n) (hk : n.kind.isRouter = true) :
    (∀ w ∈ t.vertices, ∀ x ∈ w.exits, x.OnOneWire g table root) ↔ t.OverFirstWires g root := by
  refine ⟨fun hall u hu hreached => ?_, fun hfirst w hw x hx => ?_⟩
  · obtain ⟨w, hw, hid, hd⟩ := hreached
    obtain ⟨h, hh⟩ := Tree.mem_vertices.1 hw
    obtain ⟨f, hf⟩ := Wiring.exists_first? hu
    have hcomp : t.Composes g table root ⟨f.there.address, table.resolve u.here.address .hostMask⟩ u f :=
      ⟨hu, ⟨w, hw, hid, hd⟩, hf, htable.exists_resolve hu, rfl⟩
    rw [hf, hcomp.onOneWire_iff.1 (hall w hw _ (ht.mem_exits_of_reached hdb hn hk hu hh hid hd hf))]
  · obtain ⟨h, hh⟩ := Tree.mem_vertices.1 hw
    obtain ⟨used, first, hcomp⟩ := ht.exists_composes hdb htable hn hk h w hh x hx
    refine hcomp.onOneWire_iff.2 (Option.some.inj ?_)
    rw [← hfirst used hcomp.mem hcomp.reached, hcomp.isFirst]

omit htable in
/-- A vertex below the root has an end of a wire. -/
theorem exists_end {n : Node} (hn : db.get? root = some n) (hk : n.kind.isRouter = true) {h : Handle} {w : Vertex}
    (hw : t.vertex? h = some w) (hr : h ≠ Tree.root) : ∃ u, u ∈ g.endsOf w.id := by
  obtain ⟨p, hp⟩ := ht.exists_parent hw hr
  obtain ⟨_, v, e, he⟩ := ((ht.keepsPaths hn hk hw hr).mem_parents p).1 hp
  have hedge := he.edge
  rw [ht.kind_of_wired hdb he.source, hdb.mem_edges_iff] at hedge
  obtain ⟨u, hu, rfl⟩ := hedge
  exact ⟨u.reverse, he.target ▸ Wiring.reverse_mem_endsOf hu⟩

/-- **All routes of the tree are on one wire** if and only if all exits are: an exit makes a route to
    the addresses of its vertex. -/
theorem joins_iff_onOneWire {n : Node} (hn : db.get? root = some n) (hk : n.kind.isRouter = true)
    {es : List External} {routes : List Route} (hi : t.Installs root es routes) :
    (∀ r ∈ routes, g.Joins table root r.nextHop r.interface) ↔
      ∀ w ∈ t.vertices, ∀ x ∈ w.exits, x.OnOneWire g table root := by
  refine ⟨fun hall w hw x hx => ?_, fun hall r hr => ?_⟩
  · obtain ⟨h, hh⟩ := Tree.mem_vertices.1 hw
    obtain ⟨_, _, hcomp⟩ := ht.exists_composes hdb htable hn hk h w hh x hx
    obtain ⟨i, hxi, _⟩ := hcomp.interface
    have hr : h ≠ Tree.root := fun hr => by
      rw [ht.exits_root (hr ▸ hh)] at hx
      cases hx
    obtain ⟨u, hu⟩ := ht.exists_end hdb hn hk hh hr
    exact ⟨i, hxi, hall _ (hi.mem_host (ht.mem_belowRoot.2 ⟨h, hh, hr⟩) (ht.kind_of_wired hdb hh)
      (List.mem_map_of_mem hu) rfl hx hxi)⟩
  · obtain ⟨w, hw, x, hx, hnext, hxi, _⟩ := hi.exists_exit hr
    obtain ⟨i, hxi', hjoin⟩ := hall w (List.mem_filter.1 hw).1 x hx
    obtain rfl := Option.some.inj (hxi.symm.trans hxi')
    rwa [hnext] at hjoin

end Wired

end Explored

/-! ## 3. The routes of a root -/

namespace Database

/-- **The default route of a stub is on its only wire.** -/
theorem joins_of_stub (hdb : db.Wired g) (htable : table.Serves g root) {n : Node} (hn : db.get? root = some n)
    {exit : Exit} {metric : Metric} (hcheck : db.stubCheck table.resolve n = .stub exit metric) :
    ((g.endsOf root).map (·.there.router)).Nodup ∧
      ∀ r ∈ defaultRoute exit metric, g.Joins table root r.nextHop r.interface := by
  obtain ⟨hmem, hid⟩ := get?_eq_some_iff.1 hn
  obtain ⟨uplink, m, back, hlinks, _, hm, hback, rfl, rfl⟩ := stubCheck_eq_stub_iff.1 hcheck
  obtain ⟨hmmem, hmid⟩ := get?_eq_some_iff.1 hm
  rw [hdb.node n hmem, hid, Wiring.transitLinks_links, Wiring.links] at hlinks
  obtain ⟨u, hu, rfl⟩ := List.map_eq_singleton_iff.1 hlinks
  rw [hdb.node m hmmem, hmid, hid, Wiring.linkTo?_links] at hback
  obtain ⟨f, hf, rfl⟩ := Option.map_eq_some_iff.1 hback
  have hfu : f = u := by
    have := (Wiring.first?_eq_some hf).1
    rwa [hu, List.mem_singleton] at this
  subst hfu
  have hmemf : f ∈ g.endsOf root := hu ▸ List.mem_cons_self
  refine ⟨by simp [hu], fun r hr => ?_⟩
  obtain ⟨i, hi, ha⟩ := htable.exists_resolve hmemf
  rw [defaultRoute_of_some hi, List.mem_singleton] at hr
  subst hr
  exact ⟨f, hmemf, ha, rfl⟩

/-- **Next hop and interface are on one wire** if and only if no neighbour has its distance over
    another wire than the first one to it. This holds of the exits of a tree and of the routes that are
    calculated, and the condition is met where the root has one wire at most to any router. -/
theorem exits_onOneWire_iff (hdb : db.Wired g) (htable : table.Serves g root) {n : Node} (hn : db.get? root = some n) :
    ∃ t db', db.shortestPathTree table.resolve root = (.ok t, db') ∧
      (∀ w ∈ t.vertices, ∀ x ∈ w.exits, ∃ used first, t.Composes g table root x used first) ∧
      ((∀ w ∈ t.vertices, ∀ x ∈ w.exits, x.OnOneWire g table root) ↔ t.OverFirstWires g root) ∧
      ((∀ r ∈ (db.calculate table.resolve root).routes, g.Joins table root r.nextHop r.interface) ↔
        t.OverFirstWires g root) ∧
      (((g.endsOf root).map (·.there.router)).Nodup → t.OverFirstWires g root) := by
  obtain ⟨hmem, hid⟩ := get?_eq_some_iff.1 hn
  have hkind : n.kind = .router (g.links root) := hid ▸ hdb.node n hmem
  have hk : n.kind.isRouter = true := by
    rw [hkind]
    rfl
  obtain ⟨t, db', routes, hrun, ht, hcalc, hi⟩ := db.exists_calculateTree table.resolve hn hk
  have hexits := ht.onOneWire_iff_overFirstWires hdb htable hn hk
  refine ⟨t, db', hrun, fun w hw x hx => ?_, hexits, ?_, t.overFirstWires_of_nodup⟩
  · obtain ⟨h, hh⟩ := Tree.mem_vertices.1 hw
    exact ht.exists_composes hdb htable hn hk h w hh x hx
  · cases hcheck : db.stubCheck table.resolve n with
    | isolated =>
      rw [calculate_of_isolated hn hk hcheck]
      refine iff_of_true (fun r hr => absurd hr List.not_mem_nil) fun u hu => ?_
      have hnil := stubCheck_eq_isolated_iff.1 hcheck
      rw [hkind, Wiring.transitLinks_links, Wiring.links, List.map_eq_nil_iff] at hnil
      exact absurd (hnil ▸ hu) List.not_mem_nil
    | stub exit metric =>
      rw [calculate_of_stub hn hk hcheck]
      obtain ⟨hnodup, hjoins⟩ := joins_of_stub hdb htable hn hcheck
      exact iff_of_true hjoins (t.overFirstWires_of_nodup hnodup)
    | transit =>
      rw [calculate_of_transit hn hk hcheck, hcalc]
      exact (ht.joins_iff_onOneWire hdb htable hn hk hi).trans hexits

end Database

/-! ## 4. Two parallel wires -/

namespace ParallelWires

/-- The router that is the root, and its neighbour. -/
def near : Address := .ofOctets 10 0 0 1
def far : Address := .ofOctets 10 0 0 2

def slow : Wire := ⟨⟨near, .ofOctets 10 1 1 1, 10⟩, ⟨far, .ofOctets 10 1 1 2, 10⟩⟩
def fast : Wire := ⟨⟨near, .ofOctets 10 1 2 1, 1⟩, ⟨far, .ofOctets 10 1 2 2, 1⟩⟩

/-- The two wires in either order. -/
def fastFirst : Wiring := ⟨[fast, slow], by decide, by decide⟩
def slowFirst : Wiring := ⟨[slow, fast], by decide, by decide⟩

/-- The interfaces of the root, the first on the slow wire. -/
def interfaces : InterfaceTable :=
  .ofList [⟨1, .ofOctets 10 1 1 1, .ofOctets 255 255 255 252⟩, ⟨2, .ofOctets 10 1 2 1, .ofOctets 255 255 255 252⟩]

theorem serves (g : Wiring) (h : ∀ u ∈ g.endsOf near, u = slow ∨ u = fast) : interfaces.Serves g near where
  nodup := by decide
  covers u hu := by
    rcases h u hu with rfl | rfl <;> decide

end ParallelWires

/-- Where the fast wire is the first, all exits and routes are on it. -/
theorem ParallelWires.fastFirst_onOneWire :
    fastFirst.database.Wired fastFirst ∧ interfaces.Serves fastFirst near ∧
      ∃ n, fastFirst.database.get? near = some n ∧
      ∃ t db', fastFirst.database.shortestPathTree interfaces.resolve near = (.ok t, db') ∧
        t.OverFirstWires fastFirst near ∧
        t.vertices.map (·.exits) = [[], [⟨.ofOctets 10 1 2 2, some 2⟩]] ∧
        (∀ w ∈ t.vertices, ∀ x ∈ w.exits, x.OnOneWire fastFirst interfaces near) ∧
        ∀ r ∈ (fastFirst.database.calculate interfaces.resolve near).routes,
          fastFirst.Joins interfaces near r.nextHop r.interface := by
  have hserves := serves fastFirst (by decide)
  obtain ⟨n, hn⟩ : ∃ n, fastFirst.database.get? near = some n := ⟨_, rfl⟩
  have hfirst : (fastFirst.database.shortestPathTree interfaces.resolve near).1.toOption.map
      (fun t => (decide (t.OverFirstWires fastFirst near), t.vertices.map (·.exits))) =
        some (true, [[], [⟨.ofOctets 10 1 2 2, some 2⟩]]) := by decide +kernel
  obtain ⟨t, db', hrun, _, hexits, hroutes, _⟩ :=
    Database.exits_onOneWire_iff fastFirst.wired_database hserves hn
  rw [hrun] at hfirst
  obtain ⟨hfirst, hvertices⟩ := Prod.mk.inj (Option.some.inj hfirst)
  have hfirst := of_decide_eq_true hfirst
  exact ⟨fastFirst.wired_database, hserves, n, hn, t, db', hrun, hfirst, hvertices, hexits.2 hfirst, hroutes.2 hfirst⟩

/-- **Where the slow wire is the first, the exit is on two wires**: the far router is reached over the
    fast wire, through the interface there, but at its address on the slow one. So are both routes. -/
theorem ParallelWires.slowFirst_mixesWires :
    (∀ u ∈ slowFirst.ends, 0 < u.here.metric ∧ u.here.address ≠ .unspecified) ∧
      slowFirst.database.Wired slowFirst ∧ interfaces.Serves slowFirst near ∧
      (slowFirst.database.shortestPathTree interfaces.resolve near).1.toOption.map
        (fun t => t.vertices.map fun v => (v.id, v.distance, v.exits)) =
          some [(near, 0, []), (far, 1, [⟨.ofOctets 10 1 1 2, some 2⟩])] ∧
      ¬ (⟨.ofOctets 10 1 1 2, some 2⟩ : Exit).OnOneWire slowFirst interfaces near ∧
      (slowFirst.database.calculate interfaces.resolve near).routes =
        [.host (.ofOctets 10 1 1 2) (.ofOctets 10 1 1 2) 2 1, .host (.ofOctets 10 1 2 2) (.ofOctets 10 1 1 2) 2 1] ∧
      ¬ slowFirst.Joins interfaces near (.ofOctets 10 1 1 2) 2 := by
  have hjoins : ¬ slowFirst.Joins interfaces near (.ofOctets 10 1 1 2) 2 := by decide
  refine ⟨by decide, slowFirst.wired_database, serves slowFirst (by decide), by decide +kernel, fun hx => ?_,
    by decide +kernel, hjoins⟩
  obtain ⟨i, hi, hj⟩ := hx
  cases hi
  exact hjoins hj

end LinkState
