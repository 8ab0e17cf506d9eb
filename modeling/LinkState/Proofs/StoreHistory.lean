import Mathlib.Data.Finset.Card
import LinkState.Proofs.LastOccurrence
import LinkState.Proofs.StoredNodes

/-!
# A database tells its history

A database is made by storing advertisements one after the other. What it holds in the end can be told
from their list: of the nodes the last one under each identifier, whatever kind those before it were of,
in the order of the identifiers; of the externals every one, in the order of the list.

* `mem_nodes_insert`: a node takes the place of any other with its identifier, and of no more;
* `mem_nodes_insertAll_iff`: of a list that is stored the last ones stay, and of what was there before
  the nodes that it does not name;
* `mem_nodes_ofList_iff`: so the stored nodes are those that nothing has replaced (`Survives`);
* `Ascending.eq_of_mem_iff`: nodes in ascending order are known by their members, so lists that keep the
  same nodes make the same database of them.
-/

namespace LinkState

/-! ## 1. Storing once more -/

/-- The node, if the advertisement is one. -/
def Advertisement.node? : Advertisement → Option Node
  | node n => some n
  | external _ => none

namespace Database

variable {db : Database} {n k : Node}

/-- The stored nodes have an identifier each. -/
theorem node_unique (hn : n ∈ db.nodes) (hk : k ∈ db.nodes) (hid : n.id = k.id) : n = k := by
  have h := get?_eq_some_iff.2 ⟨hn, hid⟩
  rw [get?_eq_some_iff.2 ⟨hk, rfl⟩] at h
  exact (Option.some.inj h).symm

/-- **A node takes the place of any other with its identifier.** -/
theorem mem_nodes_insert : k ∈ (db.insert (.node n)).nodes ↔ k = n ∨ k ∈ db.nodes ∧ k.id ≠ n.id := by
  have hself : n ∈ (db.insert (.node n)).nodes := mem_insertNode_self n db.nodes
  constructor
  · intro hk
    by_cases hid : k.id = n.id
    · exact .inl (node_unique hk hself hid)
    · rcases mem_insertNode hk with rfl | hk
      · exact absurd rfl hid
      · exact .inr ⟨hk, hid⟩
  · rintro (rfl | ⟨hk, hid⟩)
    · exact hself
    · obtain ⟨j, hj, hjk⟩ := exists_id_insertNode n hk
      rcases mem_insertNode hj with rfl | hjdb
      · exact absurd hjk.symm hid
      · rw [← node_unique hjdb hk hjk]
        exact hj

theorem nodup_ids (db : Database) : (db.nodes.map (·.id)).Nodup := by
  refine List.pairwise_map.2 (db.ascending.imp ?_)
  intro m k hlt he
  rw [he] at hlt
  exact Nat.lt_irrefl _ hlt

/-- Databases with the same nodes have them in the same order. -/
theorem nodes_eq_of_mem_iff {db' : Database} (h : ∀ n, n ∈ db.nodes ↔ n ∈ db'.nodes) : db.nodes = db'.nodes := by
  refine List.Perm.eq_of_pairwise (fun a b _ _ hab hba => absurd hba (Nat.lt_asymm hab)) db.ascending db'.ascending ?_
  exact (List.perm_ext_iff_of_nodup (.of_map _ db.nodup_ids) (.of_map _ db'.nodup_ids)).2 h

theorem insertAll_append (db : Database) (ads : List Advertisement) (a : Advertisement) :
    db.insertAll (ads ++ [a]) = (db.insertAll ads).insert a := by
  simp [insertAll]

end Database

/-! ## 2. What survives -/

/-- The node was stored, and none with its identifier after it. -/
def Survives (ads : List Advertisement) (n : Node) : Prop :=
  LastUnder Node.id (ads.filterMap Advertisement.node?) n

theorem mem_filterMap_node? {ads : List Advertisement} {n : Node} :
    n ∈ ads.filterMap Advertisement.node? ↔ .node n ∈ ads := by
  rw [List.mem_filterMap]
  constructor
  · rintro ⟨a, ha, hn⟩
    cases a with
    | node m =>
      cases hn
      exact ha
    | external e => cases hn
  · exact fun hn => ⟨_, hn, rfl⟩

namespace Database

variable {ads : List Advertisement} {n : Node} {id : Address}

/-- **Storing a list**: of the nodes that it names the last ones, of the others those that were there. -/
theorem mem_nodes_insertAll_iff {db : Database} : n ∈ (db.insertAll ads).nodes ↔
    Survives ads n ∨ n ∈ db.nodes ∧ ∀ k, .node k ∈ ads → k.id ≠ n.id := by
  induction ads using List.reverseRecOn generalizing n with
  | nil =>
    refine ⟨fun hn => .inr ⟨hn, fun _ hk => absurd hk List.not_mem_nil⟩, fun h => ?_⟩
    exact h.elim (fun hs => absurd hs not_lastUnder_nil) And.left
  | append_singleton ads a ih =>
    rw [insertAll_append, Survives, List.filterMap_append]
    cases a with
    | node m =>
      have hids : (∀ k, .node k ∈ ads ++ [.node m] → k.id ≠ n.id) ↔
          (∀ k, .node k ∈ ads → k.id ≠ n.id) ∧ n.id ≠ m.id := by
        simp [or_imp, forall_and, eq_comm]
      rw [mem_nodes_insert, ih, hids]
      refine Iff.trans ?_ (or_congr_left lastUnder_append.symm)
      rw [or_and_right, or_assoc, and_assoc]
      exact Iff.rfl
    | external e =>
      show n ∈ (db.insertAll ads).nodes ↔ LastUnder Node.id (ads.filterMap Advertisement.node? ++ []) n ∨ _
      rw [ih, List.append_nil]
      simp [Survives]

/-- **The stored nodes are those that nothing has replaced.** -/
theorem mem_nodes_ofList_iff : n ∈ (ofList ads).nodes ↔ Survives ads n :=
  mem_nodes_insertAll_iff.trans (or_iff_left fun h => absurd h.1 List.not_mem_nil)

theorem exists_survives (hn : .node n ∈ ads) : ∃ k, Survives ads k ∧ k.id = n.id :=
  exists_lastUnder (mem_filterMap_node?.2 hn)

theorem get?_ofList_eq_some_iff : (ofList ads).get? id = some n ↔ Survives ads n ∧ n.id = id := by
  rw [get?_eq_some_iff, mem_nodes_ofList_iff]

theorem get?_ofList_eq_none_iff : (ofList ads).get? id = none ↔ ∀ n, .node n ∈ ads → n.id ≠ id := by
  rw [Option.eq_none_iff_forall_not_mem]
  constructor
  · intro h n hn hid
    obtain ⟨k, hk, hkn⟩ := exists_survives hn
    exact h k (get?_ofList_eq_some_iff.2 ⟨hk, hkn.trans hid⟩)
  · intro h n hn
    obtain ⟨hs, hid⟩ := get?_ofList_eq_some_iff.1 hn
    exact h n (mem_filterMap_node?.1 hs.mem) hid

/-- **As many nodes are stored as there are identifiers.** -/
theorem length_nodes_ofList (ads : List Advertisement) :
    (ofList ads).nodes.length = ((ads.filterMap Advertisement.node?).map (·.id)).toFinset.card := by
  rw [← List.length_map (·.id), ← List.toFinset_card_of_nodup (ofList ads).nodup_ids]
  congr 1
  ext id
  simp only [List.mem_toFinset, List.mem_map, mem_nodes_ofList_iff]
  constructor
  · rintro ⟨n, hn, rfl⟩
    exact ⟨n, hn.mem, rfl⟩
  · rintro ⟨n, hn, rfl⟩
    exact exists_survives (mem_filterMap_node?.1 hn)

/-- Externals have no part in the stored nodes. -/
theorem nodes_ofList_filter (ads : List Advertisement) :
    (ofList (ads.filter Advertisement.isNode)).nodes = (ofList ads).nodes := by
  refine nodes_eq_of_mem_iff fun n => ?_
  rw [mem_nodes_ofList_iff, mem_nodes_ofList_iff, Survives, Survives, List.filterMap_filter]
  refine iff_of_eq (congrArg (LastUnder Node.id · n) (List.filterMap_congr fun a _ => ?_))
  cases a <;> rfl

/-- Lists in another order, with distinct identifiers, keep the same nodes. -/
theorem nodes_ofList_perm {ads' : List Advertisement} (hp : ads.Perm ads')
    (hn : ((ads.filter Advertisement.isNode).map Advertisement.id).Nodup) :
    (ofList ads).nodes = (ofList ads').nodes := by
  have hn' := ((hp.filter Advertisement.isNode).map Advertisement.id).nodup_iff.1 hn
  refine nodes_eq_of_mem_iff fun n => ?_
  rw [mem_nodes_ofList hn, mem_nodes_ofList hn', hp.mem_iff]

/-! ## 3. The whole history -/

/-- **What a database tells** of the advertisements stored in it. -/
structure Recounts (db : Database) (ads : List Advertisement) : Prop where
  /-- An identifier leads to the node that was stored last under it. -/
  get?_eq_some_iff : ∀ id n, db.get? id = some n ↔ Survives ads n ∧ n.id = id
  get?_eq_none_iff : ∀ id, db.get? id = none ↔ ∀ n, .node n ∈ ads → n.id ≠ id
  mem_nodes_iff : ∀ n, n ∈ db.nodes ↔ Survives ads n
  ascending : Ascending db.nodes
  length_nodes : db.nodes.length = ((ads.filterMap Advertisement.node?).map (·.id)).toFinset.card
  /-- All externals are kept in order, and are found under no identifier. -/
  externals : db.externals = ads.filterMap Advertisement.external?
  nodes_filter : (ofList (ads.filter Advertisement.isNode)).nodes = db.nodes
  /-- An address leads to the router of least identifier that has it on a network and survives. -/
  getByLinkData?_eq_some_iff : ∀ address n, db.getByLinkData? address = some n ↔
    Survives ads n ∧ n.kind.isRouter = true ∧ n.kind.Attaches address ∧
      ∀ m, Survives ads m → m.kind.Attaches address → ¬ m.id < n.id
  getByLinkData?_eq_none_iff : ∀ address, db.getByLinkData? address = none ↔
    ∀ n, Survives ads n → ¬ n.kind.Attaches address

theorem recounts_ofList (ads : List Advertisement) : (ofList ads).Recounts ads where
  get?_eq_some_iff _ _ := get?_ofList_eq_some_iff
  get?_eq_none_iff _ := get?_ofList_eq_none_iff
  mem_nodes_iff _ := mem_nodes_ofList_iff
  ascending := (ofList ads).ascending
  length_nodes := length_nodes_ofList ads
  externals := externals_ofList ads
  nodes_filter := nodes_ofList_filter ads
  getByLinkData?_eq_some_iff address n := by
    simp only [Database.getByLinkData?_eq_some_iff, mem_nodes_ofList_iff]
    exact and_congr_right fun _ => ⟨fun h => ⟨h.1.isRouter, h⟩, And.right⟩
  getByLinkData?_eq_none_iff address := by
    simp only [Database.getByLinkData?_eq_none_iff, mem_nodes_ofList_iff]

/-- **A database tells its history**, and of nodes with distinct identifiers it does not tell the order
    in which they came. -/
theorem ofList_history (ads : List Advertisement) :
    (ofList ads).Recounts ads ∧
      ∀ ads' : List Advertisement, ads.Perm ads' → ((ads.filter Advertisement.isNode).map Advertisement.id).Nodup →
        (ofList ads).nodes = (ofList ads').nodes :=
  ⟨recounts_ofList ads, fun _ => nodes_ofList_perm⟩

/-- Two routers with one address on a network, the first of them replaced by a network; a router with
    that address on a wire; and an external that comes twice, under the identifier of no node. -/
def replaced : List Advertisement :=
  [.node ⟨.ofOctets 10 0 0 1, .router [⟨.transitNetwork, .ofOctets 10 9 0 9, .ofOctets 10 9 0 1, 1⟩], .notExplored⟩,
    .node ⟨.ofOctets 10 0 0 3, .router [⟨.transitNetwork, .ofOctets 10 9 0 9, .ofOctets 10 9 0 1, 1⟩], .notExplored⟩,
    .external ⟨.ofOctets 172 16 0 0, .ofOctets 255 240 0 0, .ofOctets 10 0 0 3, .notExplored⟩,
    .node ⟨.ofOctets 10 0 0 1, .network (.ofOctets 255 255 255 0) [.ofOctets 10 9 0 1], .notExplored⟩,
    .node ⟨.ofOctets 10 0 0 2, .router [⟨.pointToPoint, .ofOctets 10 0 0 3, .ofOctets 10 9 0 1, 1⟩], .notExplored⟩,
    .external ⟨.ofOctets 172 16 0 0, .ofOctets 255 240 0 0, .ofOctets 10 0 0 3, .notExplored⟩]

/-- The address leads to the router that was not replaced, and the list without the one that was may be
    turned round. -/
theorem replaced_history :
    (ofList replaced).Recounts replaced ∧ (ofList replaced).nodes.length = 3 ∧ (ofList replaced).externals.length = 2 ∧
      ((ofList replaced).getByLinkData? (.ofOctets 10 9 0 1)).map (·.id) = some (.ofOctets 10 0 0 3) ∧
      ((replaced.tail.filter Advertisement.isNode).map Advertisement.id).Nodup ∧
      (ofList replaced.tail).nodes = (ofList replaced.tail.reverse).nodes := by
  have hn : ((replaced.tail.filter Advertisement.isNode).map Advertisement.id).Nodup := by decide +kernel
  have hturned := (ofList_history replaced.tail).2 _ (List.reverse_perm _).symm hn
  exact ⟨(ofList_history replaced).1, by decide +kernel, by decide +kernel, by decide +kernel, hn, hturned⟩

end Database

end LinkState
