import LinkState.Proofs.FirstHops
import LinkState.Proofs.StoredNodes

/-!
# Domains made of wires

A wire joins two routers and has an address and a metric at either end. In a domain that is made of
wires every router advertises one point-to-point link for every end that it owns, in the order of the
wires; two routers may be joined by several wires.

* `Wiring.first?_reverse`: of the wires between two routers the first is the same seen from both;
* `Wiring.linkTo?_links`: it is the wire whose link back is found;
* `Wiring.wired_database`: every list of wires has a database of its own;
* `InterfaceTable.Serves.exists_resolve`: a table that knows the root's ends finds the interface of
  each.
-/

namespace LinkState

/-! ## 1. Wires -/

/-- One end of a wire: the router there, its address on the wire, and the metric of the way out. -/
structure WireEnd where
  router : Address
  address : Address
  metric : Metric
deriving DecidableEq

/-- A wire, seen from one of its ends. -/
structure Wire where
  here : WireEnd
  there : WireEnd
deriving DecidableEq

namespace Wire

/-- The same wire, seen from the other end. -/
def reverse (w : Wire) : Wire := ⟨w.there, w.here⟩

/-- What the router at this end advertises. -/
def link (w : Wire) : Link := ⟨.pointToPoint, w.there.router, w.here.address, w.here.metric⟩

end Wire

/-- Wires between distinct routers, all addresses distinct. -/
structure Wiring where
  wires : List Wire
  distinct : ∀ w ∈ wires, w.here.router ≠ w.there.router
  nodup : (wires.flatMap fun w => [w.here.address, w.there.address]).Nodup

namespace Wiring

/-- Every wire, seen from both its ends. -/
def ends (g : Wiring) : List Wire := g.wires.flatMap fun w => [w, w.reverse]

/-- The wires of a router, seen from it. -/
def endsOf (g : Wiring) (router : Address) : List Wire := g.ends.filter (·.here.router == router)

/-- What a router advertises. -/
def links (g : Wiring) (router : Address) : List Link := (g.endsOf router).map Wire.link

/-- The first wire that leads from `r` to `s`. -/
def first? (g : Wiring) (r s : Address) : Option Wire := (g.endsOf r).find? (·.there.router == s)

variable {g : Wiring} {u w : Wire} {r s : Address}

theorem mem_ends : u ∈ g.ends ↔ u ∈ g.wires ∨ u.reverse ∈ g.wires := by
  simp only [ends, List.mem_flatMap, List.mem_cons, List.not_mem_nil, or_false]
  refine ⟨fun h => ?_, fun h => ?_⟩
  · obtain ⟨w, hw, rfl | rfl⟩ := h
    · exact .inl hw
    · exact .inr hw
  · rcases h with h | h
    · exact ⟨u, h, .inl rfl⟩
    · exact ⟨u.reverse, h, .inr rfl⟩

theorem reverse_mem_ends (hu : u ∈ g.ends) : u.reverse ∈ g.ends := mem_ends.2 (mem_ends.1 hu).symm

theorem mem_endsOf : u ∈ g.endsOf r ↔ u ∈ g.ends ∧ u.here.router = r := by
  simp [endsOf]

theorem reverse_mem_endsOf (hu : u ∈ g.endsOf r) : u.reverse ∈ g.endsOf u.there.router :=
  mem_endsOf.2 ⟨reverse_mem_ends (mem_endsOf.1 hu).1, rfl⟩

theorem router_ne (hu : u ∈ g.ends) : u.here.router ≠ u.there.router := by
  rcases mem_ends.1 hu with h | h
  · exact g.distinct u h
  · exact (g.distinct _ h).symm

/-- **An address tells a wire.** -/
theorem eq_of_address (hu : u ∈ g.ends) (hw : w ∈ g.ends) (ha : u.here.address = w.here.address) : u = w := by
  have hnodup : (g.ends.map (·.here.address)).Nodup := by
    rw [ends, List.map_flatMap]
    exact g.nodup
  exact List.inj_on_of_nodup_map hnodup hu hw ha

/-- A wire that is found leads from `r` to `s`. -/
theorem first?_eq_some (h : g.first? r s = some u) : u ∈ g.endsOf r ∧ u.there.router = s :=
  ⟨List.mem_of_find?_eq_some h, by simpa using List.find?_some h⟩

theorem exists_first? (hu : u ∈ g.endsOf r) : ∃ f, g.first? r u.there.router = some f :=
  Option.isSome_iff_exists.1 (List.find?_isSome.2 ⟨u, hu, by simp⟩)

/-- **The first wire between two routers is the same from both.** -/
theorem first?_reverse (g : Wiring) (r s : Address) : g.first? s r = (g.first? r s).map Wire.reverse := by
  simp only [first?, endsOf, ends, List.find?_filter]
  have hdistinct := g.distinct
  revert hdistinct
  generalize g.wires = ws
  intro hdistinct
  induction ws with
  | nil => rfl
  | cons w ws ih =>
    have hw := hdistinct w List.mem_cons_self
    have hrest := ih fun v hv => hdistinct v (List.mem_cons_of_mem _ hv)
    rw [List.flatMap_cons, List.find?_append, List.find?_append, hrest]
    -- a wire does not lead both from `r` to `s` and from `s` to `r`
    by_cases hrs : w.here.router = r ∧ w.there.router = s
    · obtain ⟨rfl, rfl⟩ := hrs
      simp [Wire.reverse, hw, hw.symm]
    · by_cases hsr : w.here.router = s ∧ w.there.router = r
      · obtain ⟨rfl, rfl⟩ := hsr
        simp [Wire.reverse, hw, hw.symm]
      · simp_all [Wire.reverse, and_comm]

/-- Every link of a router leads to another one. -/
theorem transitLinks_links (g : Wiring) (r : Address) : (NodeKind.router (g.links r)).transitLinks = g.links r :=
  List.filter_eq_self.2 fun l hl => by
    obtain ⟨u, _, rfl⟩ := List.mem_map.1 hl
    rfl

/-- **The link back that is found** is on the first wire between the two routers. -/
theorem linkTo?_links (g : Wiring) (r s : Address) :
    (NodeKind.router (g.links s)).linkTo? r = (g.first? r s).map fun u => u.reverse.link := by
  have hfind : (NodeKind.router (g.links s)).linkTo? r = (g.first? s r).map Wire.link := by
    rw [first?, NodeKind.linkTo?, NodeKind.links, links, List.find?_map]
    rfl
  rw [hfind, first?_reverse, Option.map_map]
  rfl

end Wiring

/-! ## 2. The database of a wiring -/

/-- The nodes of the database are routers that advertise their ends of the wires, and every end
    belongs to one of them. -/
structure Database.Wired (db : Database) (g : Wiring) : Prop where
  node : ∀ n ∈ db.nodes, n.kind = .router (g.links n.id)
  stored : ∀ w ∈ g.ends, (db.get? w.here.router).isSome

namespace Wiring

/-- What the routers of the wires advertise. -/
def nodes (g : Wiring) : List Node := g.ends.map fun w =>
  { id := w.here.router, kind := .router (g.links w.here.router) }

/-- The database in which every router advertises its ends. -/
def database (g : Wiring) : Database := .ofList (g.nodes.map .node)

/-- **Every wiring has a database.** -/
theorem wired_database (g : Wiring) : g.database.Wired g := by
  refine ⟨fun n hn => ?_, fun w hw => ?_⟩
  · obtain ⟨m, hm, hmn⟩ := List.mem_map.1 ((Database.mem_nodes_insertAll hn).resolve_left List.not_mem_nil)
    cases hmn
    obtain ⟨w, _, rfl⟩ := List.mem_map.1 hm
    rfl
  · obtain ⟨n, hn, hid⟩ := @Database.exists_id_insertAll _ (g.nodes.map .node) .empty
      (.inr ⟨_, List.mem_map_of_mem (List.mem_map_of_mem hw), rfl⟩)
    exact Option.isSome_iff_exists.2 ⟨n, Database.get?_eq_some_iff.2 ⟨hn, hid⟩⟩

end Wiring

namespace Database.Wired

variable {db : Database} {g : Wiring}

/-- **The edges out of a router are its ends of the wires.** -/
theorem mem_edges_iff (h : db.Wired g) {r : Address} {e : Edge} :
    e ∈ db.edges (.router (g.links r)) ↔ ∃ u ∈ g.endsOf r, e = ⟨u.there.router, some u.link⟩ := by
  rw [mem_edges_router]
  refine ⟨fun hx => ?_, fun hx => ?_⟩
  · obtain ⟨l, hl, _, w, hw, rfl⟩ := hx
    obtain ⟨u, hu, rfl⟩ := List.mem_map.1 hl
    refine ⟨u, hu, ?_⟩
    rw [(get?_eq_some_iff.1 hw).2]
    rfl
  · obtain ⟨u, hu, rfl⟩ := hx
    obtain ⟨w, hw⟩ := Option.isSome_iff_exists.1 (h.stored _ (Wiring.reverse_mem_ends (Wiring.mem_endsOf.1 hu).1))
    refine ⟨u.link, List.mem_map_of_mem hu, rfl, w, hw, ?_⟩
    rw [(get?_eq_some_iff.1 hw).2]
    rfl

end Database.Wired

/-! ## 3. The interfaces of the root -/

namespace InterfaceTable

/-- The interface with the index has the address. -/
def HasAddress (table : InterfaceTable) (index : UInt32) (address : Address) : Prop :=
  (table.get? index).map (·.address) = some address

instance (table : InterfaceTable) (index : UInt32) (address : Address) : Decidable (table.HasAddress index address) :=
  inferInstanceAs (Decidable (_ = _))

/-- The table has an interface for every end of the root, and indices occur once. -/
structure Serves (table : InterfaceTable) (g : Wiring) (root : Address) : Prop where
  nodup : (table.interfaces.map (·.index)).Nodup
  covers : ∀ u ∈ g.endsOf root, ∃ i ∈ table.interfaces, i.address = u.here.address

variable {table : InterfaceTable}

theorem HasAddress.unique {index : UInt32} {a b : Address} (ha : table.HasAddress index a)
    (hb : table.HasAddress index b) : a = b :=
  Option.some.inj (ha.symm.trans hb)

/-- Where indices occur once, an interface is found by its index. -/
theorem get?_index (hn : (table.interfaces.map (·.index)).Nodup) {i : Interface} (hi : i ∈ table.interfaces) :
    table.get? i.index = some i := by
  obtain ⟨j, hj⟩ : ∃ j, table.get? i.index = some j :=
    Option.isSome_iff_exists.1 (List.find?_isSome.2 ⟨i, hi, by simp⟩)
  have hid : j.index = i.index := by simpa using List.find?_some hj
  rw [hj, List.inj_on_of_nodup_map hn (List.mem_of_find?_eq_some hj) hi hid]

/-- **The interface of an end is found** by the address of the end. -/
theorem Serves.exists_resolve {g : Wiring} {root : Address} (h : table.Serves g root) {u : Wire}
    (hu : u ∈ g.endsOf root) :
    ∃ i, table.resolve u.here.address .hostMask = some i ∧ table.HasAddress i u.here.address := by
  obtain ⟨i, hi, ha⟩ := h.covers u hu
  have hmask : Address.hostMask.prefixLength?.isSome = true := by decide
  obtain ⟨j, hj⟩ : ∃ j, table.interfaces.find? (fun k => k.address == u.here.address) = some j :=
    Option.isSome_iff_exists.1 (List.find?_isSome.2 ⟨i, hi, by simpa using ha⟩)
  have hja : j.address = u.here.address := by simpa using List.find?_some hj
  refine ⟨j.index, ?_, ?_⟩
  · simp only [resolve, hmask, if_true, Address.combine_hostMask, hj, Option.map_some]
  · rw [HasAddress, get?_index h.nodup (List.mem_of_find?_eq_some hj), Option.map_some, hja]

end InterfaceTable

end LinkState
