import Mathlib.Data.List.Nodup
import LinkState.Topology

/-!
# What a database stores

Storing an advertisement puts a node in the place of an earlier one with its identifier, so no
identifier is ever lost (`Database.exists_id_insertAll`) and no node appears that was not stored
(`Database.mem_nodes_insertAll`). Where identifiers are distinct, the nodes of a database are those
that were stored, in whatever order (`Database.mem_nodes_ofList`); the externals keep theirs.

`Database.getByLinkData?_eq_some_iff` says which of the routers on a network an address leads to.
-/

namespace LinkState

/-! ## 1. Storing -/

theorem mem_insertNode_self (n : Node) : ∀ ms : List Node, n ∈ insertNode n ms
  | [] => List.mem_cons_self
  | m :: ms => by
    unfold insertNode
    split
    · exact List.mem_cons_self
    · split
      · exact List.mem_cons_self
      · exact List.mem_cons_of_mem _ (mem_insertNode_self n ms)

/-- Inserting a node takes the identifier of none away. -/
theorem exists_id_insertNode (n : Node) : ∀ {ms : List Node} {m : Node}, m ∈ ms → ∃ k ∈ insertNode n ms, k.id = m.id
  | k :: ms, m, h => by
    unfold insertNode
    split
    · exact ⟨m, List.mem_cons_of_mem _ h, rfl⟩
    · split
      · rename_i hid
        rcases List.mem_cons.1 h with rfl | h
        · exact ⟨n, List.mem_cons_self, hid⟩
        · exact ⟨m, List.mem_cons_of_mem _ h, rfl⟩
      · rcases List.mem_cons.1 h with rfl | h
        · exact ⟨m, List.mem_cons_self, rfl⟩
        · obtain ⟨j, hj, hid⟩ := exists_id_insertNode n h
          exact ⟨j, List.mem_cons_of_mem _ hj, hid⟩

/-- The external, if the advertisement is one. -/
def Advertisement.external? : Advertisement → Option External
  | node _ => none
  | external e => some e

namespace Database

variable {n : Node} {id : Address} {ads : List Advertisement}

theorem mem_nodes_insertAll : ∀ {ads : List Advertisement} {db : Database},
    n ∈ (db.insertAll ads).nodes → n ∈ db.nodes ∨ .node n ∈ ads
  | [], _, h => .inl h
  | a :: ads, db, h => by
    rcases @mem_nodes_insertAll ads (db.insert a) h with h | h
    · cases a with
      | external e => exact .inl h
      | node m =>
        rcases mem_insertNode h with rfl | h
        · exact .inr List.mem_cons_self
        · exact .inl h
    · exact .inr (List.mem_cons_of_mem _ h)

/-- What is stored has a node under its identifier for good. -/
theorem exists_id_insertAll : ∀ {ads : List Advertisement} {db : Database},
    (∃ n ∈ db.nodes, n.id = id) ∨ (∃ n, .node n ∈ ads ∧ n.id = id) → ∃ n ∈ (db.insertAll ads).nodes, n.id = id
  | [], _, h => h.resolve_right fun ⟨_, hn, _⟩ => List.not_mem_nil hn
  | a :: ads, db, h => by
    refine @exists_id_insertAll ads (db.insert a) ?_
    rcases h with ⟨n, hn, rfl⟩ | ⟨n, hn, rfl⟩
    · cases a with
      | external e => exact .inl ⟨n, hn, rfl⟩
      | node m => exact .inl (exists_id_insertNode m hn)
    · rcases List.mem_cons.1 hn with rfl | hn
      · exact .inl ⟨n, mem_insertNode_self n _, rfl⟩
      · exact .inr ⟨n, hn, rfl⟩

/-- **Where identifiers are distinct, every node is stored** and no other. -/
theorem mem_nodes_ofList (hn : ((ads.filter Advertisement.isNode).map Advertisement.id).Nodup) :
    n ∈ (ofList ads).nodes ↔ .node n ∈ ads := by
  have stored : ∀ {k}, k ∈ (ofList ads).nodes → .node k ∈ ads := fun hk =>
    (mem_nodes_insertAll hk).resolve_left List.not_mem_nil
  refine ⟨stored, fun h => ?_⟩
  obtain ⟨k, hk, hid⟩ := @exists_id_insertAll _ _ .empty (.inr ⟨n, h, rfl⟩)
  have hkn : Advertisement.node k = .node n :=
    List.inj_on_of_nodup_map hn (List.mem_filter.2 ⟨stored hk, rfl⟩) (List.mem_filter.2 ⟨h, rfl⟩) hid
  cases hkn
  exact hk

theorem externals_insertAll : ∀ (ads : List Advertisement) (db : Database),
    (db.insertAll ads).externals = db.externals ++ ads.filterMap Advertisement.external?
  | [], _ => (List.append_nil _).symm
  | .node _ :: ads, _ => externals_insertAll ads _
  | .external _ :: ads, _ => (externals_insertAll ads _).trans (List.append_assoc ..)

/-- The externals stand in the order in which they came. -/
theorem externals_ofList (ads : List Advertisement) :
    (ofList ads).externals = ads.filterMap Advertisement.external? :=
  externals_insertAll ads .empty

end Database

/-! ## 2. Looking up an address -/

/-- The node has the address on a transit network. -/
def NodeKind.Attaches (k : NodeKind) (a : Address) : Prop :=
  ∃ l ∈ k.links, l.type = .transitNetwork ∧ l.data = a

/-- A router alone has an address on a network. -/
theorem NodeKind.Attaches.isRouter {k : NodeKind} {a : Address} (h : k.Attaches a) : k.isRouter = true := by
  obtain ⟨l, hl, _⟩ := h
  cases k with
  | router links => rfl
  | network mask attached => cases hl

namespace Database

/-- **An address leads to the router of least identifier that has it** on a transit network. -/
theorem getByLinkData?_eq_some_iff {db : Database} {a : Address} {n : Node} : db.getByLinkData? a = some n ↔
    n ∈ db.nodes ∧ n.kind.Attaches a ∧ ∀ m ∈ db.nodes, m.kind.Attaches a → ¬ m.id < n.id := by
  have hany : ∀ m : Node, (m.kind.links.any fun l => l.type == .transitNetwork && l.data == a) = true ↔
      m.kind.Attaches a := fun m => by
    simp only [NodeKind.Attaches, List.any_eq_true, Bool.and_eq_true, beq_iff_eq]
  -- before what is found stands nothing with the address, and behind it greater identifiers
  have hleast : ∀ {w}, db.getByLinkData? a = some w → w ∈ db.nodes ∧ w.kind.Attaches a ∧
      ∀ m ∈ db.nodes, m.kind.Attaches a → ¬ m.id < w.id := fun {w} hw => by
    obtain ⟨hatt, front, back, heq, hfront⟩ := List.find?_eq_some_iff_append.1 hw
    refine ⟨List.mem_of_find?_eq_some hw, (hany w).1 hatt, fun m hm hma hlt => ?_⟩
    rw [heq] at hm
    rcases List.mem_append.1 hm with hm | hm
    · have := hfront m hm
      rw [(hany m).2 hma] at this
      cases this
    · rcases List.mem_cons.1 hm with rfl | hm
      · exact Nat.lt_irrefl _ hlt
      · have hasc := db.ascending
        rw [heq] at hasc
        have hwm := (List.pairwise_cons.1 (List.pairwise_append.1 hasc).2.1).1 m hm
        exact Nat.lt_asymm hwm hlt
  refine ⟨hleast, fun h => ?_⟩
  obtain ⟨hn, hatt, hmin⟩ := h
  obtain ⟨w, hw⟩ : ∃ w, db.getByLinkData? a = some w :=
    Option.isSome_iff_exists.1 (List.find?_isSome.2 ⟨n, hn, (hany n).2 hatt⟩)
  obtain ⟨hwn, hwatt, hwmin⟩ := hleast hw
  have hid : w.id = n.id :=
    Address.ext_value (Nat.le_antisymm (Nat.le_of_not_lt (hwmin n hn hatt)) (Nat.le_of_not_lt (hmin w hwn hwatt)))
  rw [hw, ← get?_eq_some_iff.2 ⟨hwn, hid⟩, get?_eq_some_iff.2 ⟨hn, rfl⟩]

/-- An address leads nowhere if nothing that is stored has it. -/
theorem getByLinkData?_eq_none_iff {db : Database} {address : Address} :
    db.getByLinkData? address = none ↔ ∀ n ∈ db.nodes, ¬ n.kind.Attaches address := by
  simp only [getByLinkData?, List.find?_eq_none, NodeKind.Attaches, List.any_eq_true, Bool.and_eq_true, beq_iff_eq]

end Database

end LinkState
