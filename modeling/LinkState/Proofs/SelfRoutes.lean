import LinkState.Proofs.LoopFreedom
import LinkState.Proofs.RootIsolation

/-!
# Routes to the router itself

A route leads back to its own router if it is a host route to one of the router's point-to-point
addresses or has one of the router's own addresses as next hop (`Route.ToSelf`). Where links have
addresses, and no two routers share one, a tree makes no such route (`Explored.not_toSelf`):

* a host route leads to an address of a vertex below the root (`Tree.Installs.exists_owner`);
* a next hop is `0.0.0.0` or an address of a vertex below the root, wherever it was written down
  first (`Explored.unspecified_or_owned`).

The default route of a stub is another matter: the only link of a router may name that router, which
is then its own neighbour. `Database.calculate_routesToSelf_iff` says that this is the only case.
-/

namespace LinkState

/-! ## 1. Own addresses -/

/-- The address is that of the node itself on a link to another vertex. -/
def NodeKind.Owns (k : NodeKind) (a : Address) : Prop := ∃ l ∈ k.transitLinks, l.data = a

instance (k : NodeKind) (a : Address) : Decidable (k.Owns a) :=
  inferInstanceAs (Decidable (∃ l ∈ k.transitLinks, l.data = a))

/-- No two nodes own the same address. -/
def Database.DistinctAddresses (db : Database) : Prop :=
  ∀ n ∈ db.nodes, ∀ m ∈ db.nodes, ∀ l ∈ n.kind.transitLinks, m.kind.Owns l.data → n.id = m.id

instance (db : Database) : Decidable db.DistinctAddresses :=
  inferInstanceAs (Decidable (∀ n ∈ db.nodes, ∀ m ∈ db.nodes, ∀ l ∈ n.kind.transitLinks,
    m.kind.Owns l.data → n.id = m.id))

/-- The route leads to a router with the links of `k` itself: to one of its point-to-point addresses,
    or through one of its own addresses. -/
def Route.ToSelf (r : Route) (k : NodeKind) : Prop :=
  (r.kind = .host ∧ ∃ l ∈ k.links, l.type = .pointToPoint ∧ l.data = r.destination) ∨ k.Owns r.nextHop

instance (r : Route) (k : NodeKind) : Decidable (r.ToSelf k) :=
  inferInstanceAs (Decidable ((r.kind = .host ∧ ∃ l ∈ k.links, l.type = .pointToPoint ∧ l.data = r.destination) ∨
    k.Owns r.nextHop))

/-- The only link to another vertex is a point-to-point link that names the router `id` itself, and
    there is an interface for it. -/
def NodeKind.LoopsBack (k : NodeKind) (resolve : Resolver) (id : Address) : Prop :=
  ∃ uplink, k.transitLinks = [uplink] ∧ uplink.type = .pointToPoint ∧ uplink.id = id ∧
    (resolve uplink.data .hostMask).isSome

theorem NodeKind.owns_of_mem {k : NodeKind} {l : Link} (hl : l ∈ k.links) (htype : l.type = .pointToPoint) :
    k.Owns l.data :=
  ⟨l, List.mem_filter.2 ⟨hl, by rw [Link.isTransit, htype]; rfl⟩, rfl⟩

/-- What one node owns no other node does. -/
theorem Database.DistinctAddresses.eq_of_owns {db : Database} (h : db.DistinctAddresses) {n m : Node}
    (hn : n ∈ db.nodes) (hm : m ∈ db.nodes) {a : Address} (hna : n.kind.Owns a) (hma : m.kind.Owns a) :
    n.id = m.id := by
  obtain ⟨l, hl, rfl⟩ := hna
  exact h n hn m hm l hl hma

/-! ## 2. Where next hops and host routes come from -/

namespace Explored

variable {db : Database} {resolve : Resolver} {root : Address} {t : Tree} {order : List Handle} {n : Node}

/-- The address is owned by a vertex below the root. -/
def OwnedBelow (t : Tree) (a : Address) : Prop :=
  ∃ k u, t.vertex? k = some u ∧ k ≠ Tree.root ∧ u.kind.Owns a

/-- **A next hop is `0.0.0.0` or belongs to a vertex below the root**: it was written down as an
    address of the vertex that was reached, and handed on from there. -/
theorem unspecified_or_owned (ht : Explored db resolve root t order) (hn : db.get? root = some n)
    (hk : n.kind.isRouter = true) : ∀ h w, t.vertex? h = some w →
      ∀ x ∈ w.exits, x.nextHop = .unspecified ∨ OwnedBelow t x.nextHop := by
  refine ht.exitInduction hn hk _ fun {h p w v e x} hw hr _ _ hfirst inherit => ?_
  cases hfirst with
  | neighbour _ _ _ hb => exact .inr ⟨h, w, hw, hr, _, (NodeKind.mem_transitLinks_of_linkTo? hb).1, rfl⟩
  | attached => exact .inl rfl
  | entered _ _ _ _ _ hb => exact .inr ⟨h, w, hw, hr, _, hb, rfl⟩
  | crossed _ _ _ hy => exact inherit x hy
  | inherited _ _ hy => exact inherit x hy

/-- What the root owns no vertex below it does. -/
theorem not_ownedBelow (ht : Explored db resolve root t order) (hn : db.get? root = some n)
    (hdist : db.DistinctAddresses) {a : Address} (ha : n.kind.Owns a) : ¬ OwnedBelow t a := by
  intro ⟨k, u, hu, hk, hown⟩
  obtain ⟨m, hm, hmk⟩ := ht.node hu
  obtain ⟨hn, hid⟩ := Database.get?_eq_some_iff.1 hn
  obtain ⟨hm, hmid⟩ := Database.get?_eq_some_iff.1 hm
  have hroot := hdist.eq_of_owns hm hn (hmk.symm ▸ hown) ha
  exact hk ((ht.root_iff k u hu).2 (by rw [← hmid, hroot, hid]))

/-- **A tree makes no route to its root.** -/
theorem not_toSelf (ht : Explored db resolve root t order) (hn : db.get? root = some n)
    (hk : n.kind.isRouter = true) (haddr : db.Addressed) (hdist : db.DistinctAddresses) {es : List External}
    {routes : List Route} (hi : t.Installs root es routes) {r : Route} (hr : r ∈ routes) : ¬ r.ToSelf n.kind := by
  have hbelow : ∀ {a}, n.kind.Owns a → ¬ OwnedBelow t a := ht.not_ownedBelow hn hdist
  rintro (⟨hhost, l, hl, htype, hdata⟩ | hnext)
  · obtain ⟨w, hw, l', hl', htype', hdata'⟩ := hi.exists_owner hr hhost
    obtain ⟨h, hw, hroot⟩ := ht.mem_belowRoot.1 hw
    exact hbelow (NodeKind.owns_of_mem hl htype)
      ⟨h, w, hw, hroot, by rw [hdata, ← hdata']; exact NodeKind.owns_of_mem hl' htype'⟩
  · obtain ⟨w, hw, x, hx, hxr, _⟩ := hi.exists_exit hr
    obtain ⟨h, hw, hroot⟩ := ht.mem_belowRoot.1 hw
    rw [← hxr] at hnext
    rcases ht.unspecified_or_owned hn hk h w hw x hx with hu | hown
    · obtain ⟨l, hl, hdata⟩ := hnext
      exact haddr n (Database.get?_eq_some_iff.1 hn).1 l hl (hdata.trans hu)
    · exact hbelow hnext hown

end Explored

/-! ## 3. The default route -/

/-- A link that loops back passes for the uplink of a stub, which is then its own neighbour. -/
theorem NodeKind.LoopsBack.exists_stub {db : Database} {resolve : Resolver} {n : Node}
    (hn : db.get? n.id = some n) (h : n.kind.LoopsBack resolve n.id) :
    ∃ exit metric, db.stubCheck resolve n = .stub exit metric ∧ n.kind.Owns exit.nextHop ∧ exit.interface.isSome := by
  obtain ⟨uplink, hlinks, htype, hid, hif⟩ := h
  have hmem : uplink ∈ n.kind.links := (List.mem_filter.1 (hlinks ▸ List.mem_cons_self :)).1
  obtain ⟨back, hback⟩ : ∃ back, n.kind.linkTo? n.id = some back :=
    Option.isSome_iff_exists.1 (List.find?_isSome.2 ⟨uplink, hmem, by simp [htype, hid]⟩)
  refine ⟨_, _, Database.stubCheck_eq_stub_iff.2
    ⟨uplink, n, back, hlinks, htype, by rw [hid, hn], hback, rfl, rfl⟩, ?_, hif⟩
  exact ⟨back, (NodeKind.mem_transitLinks_of_linkTo? hback).1, rfl⟩

/-- **The default route of a stub is one to the stub itself** if and only if its link loops back. -/
theorem Database.defaultRoute_toSelf_iff {db : Database} {resolve : Resolver} {n : Node}
    (hn : db.get? n.id = some n) (hdist : db.DistinctAddresses) {exit : Exit} {metric : Metric}
    (hcheck : db.stubCheck resolve n = .stub exit metric) :
    (∃ r ∈ defaultRoute exit metric, r.ToSelf n.kind) ↔ n.kind.LoopsBack resolve n.id := by
  constructor
  · rintro ⟨r, hr, hself⟩
    obtain ⟨uplink, m, back, hlinks, htype, hm, hback, rfl, rfl⟩ := stubCheck_eq_stub_iff.1 hcheck
    cases hi : resolve uplink.data .hostMask with
    | none =>
      rw [defaultRoute_of_none hi] at hr
      exact absurd hr List.not_mem_nil
    | some i =>
      rw [defaultRoute_of_some hi, List.mem_singleton] at hr
      subst hr
      -- the next hop is an address of the neighbour, so the neighbour is the router itself
      have hown : n.kind.Owns back.data := hself.resolve_left fun hhost => by cases hhost.1
      have hback : m.kind.Owns back.data := ⟨back, (NodeKind.mem_transitLinks_of_linkTo? hback).1, rfl⟩
      obtain ⟨hm, hmid⟩ := get?_eq_some_iff.1 hm
      have hid := hdist.eq_of_owns hm (get?_eq_some_iff.1 hn).1 hback hown
      exact ⟨uplink, hlinks, htype, hmid.symm.trans hid, by rw [hi]; rfl⟩
  · intro h
    obtain ⟨exit', metric', hcheck', hown, hif⟩ := h.exists_stub hn
    cases hcheck.symm.trans hcheck'
    obtain ⟨i, hi⟩ := Option.isSome_iff_exists.1 hif
    exact ⟨_, by rw [defaultRoute_of_some hi]; exact List.mem_singleton.2 rfl, .inr hown⟩

/-! ## 4. Routes to the router itself -/

/-- **The only route to the router itself is the default route over a link that loops back.** Where
    links have addresses of their own, the tree of a router makes no route to it, and the calculation
    of its routes writes one if and only if its single link to another vertex names the router itself
    and has an interface. -/
theorem Database.calculate_routesToSelf_iff (db : Database) (resolve : Resolver) {root : Address} {n : Node}
    (hn : db.get? root = some n) (hk : n.kind.isRouter = true) (haddr : db.Addressed)
    (hdist : db.DistinctAddresses) :
    (∃ o, (db.calculate resolve root).outcome = .ok o) ∧
      (∃ o, (db.calculateTree resolve root).outcome = .ok o) ∧
      (∀ r ∈ (db.calculateTree resolve root).routes, ¬ r.ToSelf n.kind) ∧
      ((∃ r ∈ (db.calculate resolve root).routes, r.ToSelf n.kind) ↔ n.kind.LoopsBack resolve root) := by
  obtain ⟨t, db', routes, _, ht, hcalc, hi⟩ := db.exists_calculateTree resolve hn hk
  have htree : ∀ r ∈ routes, ¬ r.ToSelf n.kind := fun r hr => ht.not_toSelf hn hk haddr hdist hi hr
  obtain rfl := (get?_eq_some_iff.1 hn).2
  obtain ⟨o, _, _, hok, _⟩ := exists_calculate_ok (hasRouter_iff.2 ⟨n, hn, hk⟩) resolve
  refine ⟨⟨o, by rw [hok]⟩, ⟨_, by rw [hcalc]⟩, by rwa [hcalc], ?_⟩
  cases hcheck : db.stubCheck resolve n with
  | stub exit metric =>
    rw [calculate_of_stub hn hk hcheck]
    exact defaultRoute_toSelf_iff hn hdist hcheck
  | isolated =>
    rw [calculate_of_isolated hn hk hcheck]
    refine iff_of_false (fun ⟨r, hr, _⟩ => List.not_mem_nil hr) fun h => ?_
    obtain ⟨_, _, hstub, _⟩ := h.exists_stub hn
    cases hcheck.symm.trans hstub
  | transit =>
    rw [calculate_of_transit hn hk hcheck, hcalc]
    refine iff_of_false (fun ⟨r, hr, hself⟩ => htree r hr hself) fun h => ?_
    obtain ⟨_, _, hstub, _⟩ := h.exists_stub hn
    cases hcheck.symm.trans hstub

/-- A router with a link that names itself, beside a link to a neighbour and a network that it shares
    with another router. -/
def Database.looped : Database :=
  .ofList [
    .node ⟨.ofOctets 10 0 0 1, .router [⟨.pointToPoint, .ofOctets 10 0 0 1, .ofOctets 10 1 1 1, 1⟩,
      ⟨.pointToPoint, .ofOctets 10 0 0 2, .ofOctets 10 1 2 1, 1⟩,
      ⟨.transitNetwork, .ofOctets 10 9 0 1, .ofOctets 10 9 0 1, 1⟩], .inTree⟩,
    .node ⟨.ofOctets 10 0 0 2, .router [⟨.pointToPoint, .ofOctets 10 0 0 1, .ofOctets 10 1 2 2, 1⟩], .notExplored⟩,
    .node ⟨.ofOctets 10 0 0 3, .router [⟨.transitNetwork, .ofOctets 10 9 0 1, .ofOctets 10 9 0 3, 1⟩,
      ⟨.pointToPoint, .ofOctets 10 0 0 1, .ofOctets 10 1 3 2, 1⟩], .candidate⟩,
    .node ⟨.ofOctets 10 9 0 1, .network (.ofOctets 255 255 255 0) [.ofOctets 10 9 0 1, .ofOctets 10 9 0 3],
      .notExplored⟩]

/-- The interfaces of the router, one for each of its links. -/
def loopedInterfaces : InterfaceTable :=
  .ofList [⟨1, .ofOctets 10 1 1 1, .ofOctets 255 255 255 252⟩, ⟨2, .ofOctets 10 1 2 1, .ofOctets 255 255 255 252⟩,
    ⟨3, .ofOctets 10 9 0 1, .ofOctets 255 255 255 0⟩]

/-- Its routes lead to the network and to the addresses of the two other routers. -/
theorem Database.looped_routesToSelf :
    looped.Addressed ∧ looped.DistinctAddresses ∧
      ∃ n, looped.get? (.ofOctets 10 0 0 1) = some n ∧ n.kind.isRouter = true ∧
        (looped.calculate loopedInterfaces.resolve (.ofOctets 10 0 0 1)).routes =
          [.host (.ofOctets 10 1 2 2) (.ofOctets 10 1 2 2) 2 1,
            .network (.ofOctets 10 9 0 0) (.ofOctets 255 255 255 0) .unspecified 3 1,
            .host (.ofOctets 10 1 3 2) (.ofOctets 10 9 0 3) 3 1] ∧
        ∀ r ∈ (looped.calculate loopedInterfaces.resolve (.ofOctets 10 0 0 1)).routes, ¬ r.ToSelf n.kind := by
  have haddr : looped.Addressed := by decide +kernel
  have hdist : looped.DistinctAddresses := by decide +kernel
  obtain ⟨n, hn, hk⟩ : ∃ n, looped.get? (.ofOctets 10 0 0 1) = some n ∧ n.kind.isRouter = true := ⟨_, rfl, rfl⟩
  have hlinks : n.kind.transitLinks.length = 3 := by
    cases hn
    decide
  obtain ⟨_, _, _, hiff⟩ := looped.calculate_routesToSelf_iff loopedInterfaces.resolve hn hk haddr hdist
  refine ⟨haddr, hdist, n, hn, hk, by decide +kernel, fun r hr hself => ?_⟩
  obtain ⟨uplink, hone, _⟩ := hiff.1 ⟨r, hr, hself⟩
  rw [hone] at hlinks
  cases hlinks

/-- The same router with nothing but the link that names itself. -/
def Database.loop : Database :=
  .ofList [.node ⟨.ofOctets 10 0 0 1, .router [⟨.pointToPoint, .ofOctets 10 0 0 1, .ofOctets 10 1 1 1, 1⟩],
    .notExplored⟩]

/-- Its default route goes through its own address. -/
theorem Database.loop_routesToSelf :
    loop.Addressed ∧ loop.DistinctAddresses ∧
      ∃ n, loop.get? (.ofOctets 10 0 0 1) = some n ∧ n.kind.isRouter = true ∧
        (loop.calculate loopedInterfaces.resolve (.ofOctets 10 0 0 1)).routes =
          [.network .unspecified .unspecified (.ofOctets 10 1 1 1) 1 1] ∧
        Route.ToSelf (.network .unspecified .unspecified (.ofOctets 10 1 1 1) 1 1) n.kind :=
  ⟨by decide +kernel, by decide +kernel, _, rfl, rfl, by decide +kernel, by decide +kernel⟩

end LinkState
