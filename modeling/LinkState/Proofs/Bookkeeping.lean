import Mathlib.Data.List.Nodup
import Mathlib.Data.List.Perm.Subperm
import LinkState.Proofs.LeastCost
import LinkState.Proofs.Moments

/-!
# Four records of one run

How far a run has come with a node is written down four times: in the status of the node, in the
arena of the tree, among the candidates of the queue and in the queue's handles by identifier. Every
record is written at a place of its own, and at every moment of the run they say the same
(`Moment.Consistent`).

* `Moment.Sound.status_cases`: a node is unexplored and has no vertex, is a candidate with a vertex
  that is not settled, or is in the tree with one that is;
* `Queued.filter_id_eq`: a candidate has one entry in the queue, a node of any other status none;
* `Moment.Sound.addToParents_fst`: the parents of a candidate are settled, so it can become their
  child;
* `Moment.Sound.length_popped_lt`: settled vertices are nodes of the database, each once, which bounds
  the number of pops.

So no step of a run meets a record that is missing where another one promises it (`Moment.Answers`).
-/

namespace LinkState

/-! ## 1. What the records say -/

/-- **The records agree** at a moment of a run over `db`. -/
structure Moment.Consistent (db : Database) (m : Moment) : Prop where
  /-- The run writes statuses and nothing else of the database. -/
  content : m.state.database.reset = db.reset
  externals : ∀ e ∈ m.state.database.externals, e.status = .notExplored
  distinct : (m.state.tree.vertices.map (·.id)).Nodup
  stored : ∀ v ∈ m.state.tree.vertices, ∃ n, db.get? v.id = some n ∧ n.kind = v.kind
  notExplored_iff : ∀ n ∈ m.state.database.nodes, n.status = .notExplored ↔ ∀ v ∈ m.state.tree.vertices, v.id ≠ n.id
  candidate_iff : ∀ n ∈ m.state.database.nodes,
    n.status = .candidate ↔ (m.state.queue.candidates.filter (·.id == n.id)).length = 1
  inTree_iff : ∀ n ∈ m.state.database.nodes,
    n.status = .inTree ↔ ∃ h ∈ m.settled, ∃ v, m.state.tree.vertex? h = some v ∧ v.id = n.id
  /-- The entry of a candidate has the handle found under its identifier, and its distance. -/
  entry : ∀ n ∈ m.state.database.nodes, n.status = .candidate →
    ∃ h v, m.state.queue.find? n.id = some h ∧ m.state.tree.vertex? h = some v ∧ v.id = n.id ∧
      m.state.queue.candidates.filter (·.id == n.id) = [⟨h, v.distance, n.id⟩]
  /-- Every entry is that of a vertex that has a parent and whose parents are settled. -/
  queued : ∀ c ∈ m.state.queue.candidates, ∃ v, m.state.tree.vertex? c.handle = some v ∧
    c = ⟨c.handle, v.distance, v.id⟩ ∧ v.parents ≠ [] ∧ ∀ p ∈ v.parents, p ∈ m.settled
  /-- No handle is popped twice, and the root never. -/
  once : m.settled.Nodup
  bounded : m.popped.length < db.nodes.length

/-- **Every look-up of the next step is answered.** -/
structure Moment.Answers (m : Moment) : Prop where
  current : ∃ v, m.state.tree.vertex? m.state.current = some v
  /-- An edge leads to a node; a candidate is found in the handles, in the arena and in the queue. -/
  ahead : ∀ e ∈ m.ahead, ∃ n, m.state.database.get? e.target = some n ∧
    (n.status = .candidate → ∃ h v, m.state.queue.find? n.id = some h ∧ m.state.tree.vertex? h = some v ∧
      m.state.queue.queued h = true)
  /-- A handle that is popped is in the arena, and so are the parents of its vertex. -/
  pop : ∀ h q, m.state.queue.pop? = some (h, q) →
    (∃ v, m.state.tree.vertex? h = some v) ∧ (m.state.tree.addToParents h).1 = some ()

/-! ## 2. Entries by identifier -/

namespace Queued

variable {look : Handle → Option Vertex} {order : List Handle} {q : CandidateQueue}

/-- **A vertex that is not settled has one entry.** -/
theorem filter_id_eq (hq : Queued look order q) {h : Handle} {v : Vertex} (hv : look h = some v) (hh : h ∉ order)
    (hdist : ∀ {k w}, look k = some w → w.id = v.id → k = h) :
    q.candidates.filter (·.id == v.id) = [v.candidate h] := by
  refine Distinct.eq_singleton ((List.Nodup.of_map _ hq.wellFormed.handles).filter _) fun c => ?_
  rw [List.mem_filter, beq_iff_eq]
  refine ⟨fun hc => ?_, fun hc => ?_⟩
  · obtain ⟨hmem, hid⟩ := hc
    obtain ⟨_, w, hw, hwc⟩ := (hq.mem_iff c).1 hmem
    rw [← hwc] at hid
    have hch : c.handle = h := hdist hw hid
    rw [hch, hv, Option.some.injEq] at hw
    rw [← hwc, ← hw, hch]
  · subst hc
    exact ⟨hq.candidate_mem hh hv, rfl⟩

/-- An identifier without such a vertex has none. -/
theorem filter_id_eq_nil (hq : Queued look order q) {id : Address}
    (hid : ∀ h v, look h = some v → v.id = id → h ∈ order) : q.candidates.filter (·.id == id) = [] := by
  refine List.filter_eq_nil_iff.2 fun c hc he => ?_
  obtain ⟨hco, v, hv, hvc⟩ := (hq.mem_iff c).1 hc
  refine hco (hid _ v hv ?_)
  rw [← beq_iff_eq.1 he, ← hvc]
  rfl

end Queued

/-! ## 3. A vertex and its parents -/

/-- Parents in the arena take a child. -/
theorem Tree.addChildTo_fst (c : Handle) : ∀ {ps : List Handle} {t : Tree}, (∀ p ∈ ps, p < t.size) →
    (addChildTo c ps t).1 = some ()
  | [], _, _ => rfl
  | p :: ps, t, hps => by
    obtain ⟨v, hv⟩ := exists_vertex? (hps p List.mem_cons_self)
    rw [addChildTo, hv]
    dsimp only
    refine addChildTo_fst c fun q hq => ?_
    rw [size_modify]
    exact hps q (List.mem_cons_of_mem _ hq)

namespace Moment.Sound

variable {db : Database} {resolve : Resolver} {root : Address} {log : List (Handle × Edge)} {m : Moment}

/-- The parents of a vertex are settled. -/
theorem mem_settled_of_parent (hm : m.Sound db resolve root log) {h p : Handle} {v : Vertex}
    (hv : m.state.tree.vertex? h = some v) (hp : p ∈ v.parents) : p ∈ m.settled := by
  by_cases hr : h = Tree.root
  · obtain ⟨r, hroot, _, _, _, hnil⟩ := hm.explores.labelled.root
    rw [← hr, Tree.label?_of_vertex? hv, Option.some.injEq] at hroot
    rw [← hroot, Vertex.parents_label] at hnil
    rw [hnil] at hp
    cases hp
  · obtain ⟨o, ho, _, rfl⟩ := ((hm.explores.labelled.sumsUp (Tree.label?_of_vertex? hv) hr).mem_parents p).1 hp
    exact ho.1.mem

/-- A vertex that is not settled has a parent. -/
theorem parents_ne_nil (hm : m.Sound db resolve root log) {h : Handle} {v : Vertex}
    (hv : m.state.tree.vertex? h = some v) (hh : h ∉ m.settled) : v.parents ≠ [] := by
  have hr : h ≠ Tree.root := fun hr => hh (hr ▸ List.mem_cons_self)
  have hs := hm.explores.labelled.sumsUp (Tree.label?_of_vertex? hv) hr
  obtain ⟨o, ho, hd⟩ := hs.attained
  exact List.ne_nil_of_mem ((hs.mem_parents o.origin).2 ⟨o, ho, hd, rfl⟩)

/-- **A vertex of the arena can become a child of its parents.** -/
theorem addToParents_fst (hm : m.Sound db resolve root log) {h : Handle} {v : Vertex}
    (hv : m.state.tree.vertex? h = some v) : (m.state.tree.addToParents h).1 = some () := by
  rw [Tree.addToParents, hv]
  exact Tree.addChildTo_fst h fun p hp => hm.explores.parent_lt (Tree.label?_of_vertex? hv) hp

/-- **The status of a node** says whether it has a vertex and whether that is settled. -/
theorem status_cases (hm : m.Sound db resolve root log) {n : Node} (hn : n ∈ m.state.database.nodes) :
    n.status = .notExplored ∧ (∀ v ∈ m.state.tree.vertices, v.id ≠ n.id) ∨
      ∃ h v, m.state.tree.vertex? h = some v ∧ v.id = n.id ∧
        (n.status = .candidate ∧ h ∉ m.settled ∨ n.status = .inTree ∧ h ∈ m.settled) := by
  obtain ⟨st, hdb, hst⟩ := hm.explores.statuses
  rw [hdb] at hn
  obtain ⟨k, _, rfl⟩ := List.mem_map.1 hn
  by_cases hv : ∃ h v, m.state.tree.vertex? h = some v ∧ v.id = k.id
  · obtain ⟨h, v, hv, hid⟩ := hv
    refine .inr ⟨h, v, hv, hid, ?_⟩
    have hstatus := hst.vertex (Tree.label?_of_vertex? hv)
    rw [Vertex.id_label, hid] at hstatus
    by_cases hh : h ∈ m.settled
    · exact .inr ⟨hstatus.trans (if_pos hh), hh⟩
    · exact .inl ⟨hstatus.trans (if_neg hh), hh⟩
  · refine .inl ⟨hst.absent fun h w hw hid => ?_, fun v hv' hid => ?_⟩
    · obtain ⟨v, hv', rfl⟩ := Tree.label?_eq_some.1 hw
      exact hv ⟨h, v, hv', hid⟩
    · obtain ⟨h, hh⟩ := Tree.mem_vertices.1 hv'
      exact hv ⟨h, v, hh, hid⟩

/-- No identifier has two vertices. -/
theorem eq_of_id (hm : m.Sound db resolve root log) {h k : Handle} {v w : Vertex}
    (hv : m.state.tree.vertex? h = some v) (hw : m.state.tree.vertex? k = some w) (hid : v.id = w.id) : h = k :=
  hm.explores.labelled.distinct (v := v.label) (w := w.label) (Tree.label?_of_vertex? hv)
    (Tree.label?_of_vertex? hw) hid

/-- A vertex is one of a node of the database. -/
theorem exists_node (hm : m.Sound db resolve root log) {v : Vertex} (hv : v ∈ m.state.tree.vertices) :
    ∃ n, db.get? v.id = some n ∧ n.kind = v.kind := by
  obtain ⟨h, hh⟩ := Tree.mem_vertices.1 hv
  exact hm.explores.labelled.node (v := v.label) (Tree.label?_of_vertex? hh)

/-- **The arena is no larger than the database.** -/
theorem size_le (hm : m.Sound db resolve root log) : m.state.tree.size ≤ db.nodes.length := by
  have hsub : m.state.tree.vertices.map (·.id) ⊆ db.nodes.map (·.id) := fun id hid => by
    obtain ⟨v, hv, rfl⟩ := List.mem_map.1 hid
    obtain ⟨n, hn, _⟩ := hm.exists_node hv
    obtain ⟨hmem, he⟩ := Database.get?_eq_some_iff.1 hn
    exact he ▸ List.mem_map_of_mem hmem
  simpa [Tree.size] using ((Tree.nodup_ids hm.eq_of_id).subperm hsub).length_le

/-- **Fewer handles are popped than the database has nodes**: those and the root are in the arena. -/
theorem length_popped_lt (hm : m.Sound db resolve root log) : m.popped.length < db.nodes.length := by
  have hsub : m.settled ⊆ List.range m.state.tree.size := fun h hh => by
    obtain ⟨w, hw⟩ := hm.explores.labelled.settled hh
    obtain ⟨v, hv, _⟩ := Tree.label?_eq_some.1 hw
    exact List.mem_range.2 (Tree.vertex?_lt hv)
  have hle : m.settled.length ≤ m.state.tree.size := by
    simpa using (hm.explores.labelled.nodup.subperm hsub).length_le
  exact Nat.lt_of_lt_of_le hle hm.size_le

/-! ## 4. Agreement at every moment -/

/-- The one entry of a candidate. -/
theorem filter_eq_singleton (hm : m.Sound db resolve root log) {h : Handle} {v : Vertex}
    (hv : m.state.tree.vertex? h = some v) (hh : h ∉ m.settled) :
    m.state.queue.candidates.filter (·.id == v.id) = [⟨h, v.distance, v.id⟩] :=
  hm.explores.queued.filter_id_eq (v := v.label) (Tree.label?_of_vertex? hv) hh fun hk hid =>
    hm.explores.labelled.distinct hk (Tree.label?_of_vertex? hv) hid

/-- A settled vertex has none. -/
theorem filter_eq_nil (hm : m.Sound db resolve root log) {h : Handle} {v : Vertex}
    (hv : m.state.tree.vertex? h = some v) (hh : h ∈ m.settled) :
    m.state.queue.candidates.filter (·.id == v.id) = [] :=
  hm.explores.queued.filter_id_eq_nil fun _ _ hk hid =>
    hm.explores.labelled.distinct hk (Tree.label?_of_vertex? hv) hid ▸ hh

/-- A node without a vertex has none. -/
theorem filter_eq_nil_of_absent (hm : m.Sound db resolve root log) {id : Address}
    (hid : ∀ v ∈ m.state.tree.vertices, v.id ≠ id) : m.state.queue.candidates.filter (·.id == id) = [] := by
  refine hm.explores.queued.filter_id_eq_nil fun h w hw he => ?_
  obtain ⟨v, hv, rfl⟩ := Tree.label?_eq_some.1 hw
  exact absurd he (hid v (Tree.mem_vertices.2 ⟨h, hv⟩))

/-- **A candidate has its handle, its vertex and its entry.** -/
theorem exists_entry (hm : m.Sound db resolve root log) {n : Node} (hn : n ∈ m.state.database.nodes)
    (hs : n.status = .candidate) :
    ∃ h v, m.state.queue.find? n.id = some h ∧ m.state.tree.vertex? h = some v ∧ v.id = n.id ∧
      m.state.queue.candidates.filter (·.id == n.id) = [⟨h, v.distance, n.id⟩] := by
  rcases hm.status_cases hn with ⟨hst, _⟩ | ⟨h, v, hv, hid, ⟨_, hh⟩ | ⟨hst, _⟩⟩
  · rw [hs] at hst
    cases hst
  · refine ⟨h, v, (hm.explores.queued.find?_iff _ _).2 ⟨hh, v.label, Tree.label?_of_vertex? hv, hid⟩, hv, hid, ?_⟩
    rw [← hid]
    exact hm.filter_eq_singleton hv hh
  · rw [hs] at hst
    cases hst

theorem notExplored_iff (hm : m.Sound db resolve root log) {n : Node} (hn : n ∈ m.state.database.nodes) :
    n.status = .notExplored ↔ ∀ v ∈ m.state.tree.vertices, v.id ≠ n.id := by
  rcases hm.status_cases hn with ⟨hst, habsent⟩ | ⟨h, v, hv, hid, hst⟩
  · exact iff_of_true hst habsent
  · refine iff_of_false (fun hs => ?_) fun habsent => habsent v (Tree.mem_vertices.2 ⟨h, hv⟩) hid
    rcases hst with ⟨hst, _⟩ | ⟨hst, _⟩ <;> rw [hs] at hst <;> cases hst

theorem candidate_iff (hm : m.Sound db resolve root log) {n : Node} (hn : n ∈ m.state.database.nodes) :
    n.status = .candidate ↔ (m.state.queue.candidates.filter (·.id == n.id)).length = 1 := by
  rcases hm.status_cases hn with ⟨hst, habsent⟩ | ⟨h, v, hv, hid, ⟨hst, hh⟩ | ⟨hst, hh⟩⟩
  · rw [hst, hm.filter_eq_nil_of_absent habsent]
    simp
  · rw [hst, ← hid, hm.filter_eq_singleton hv hh]
    simp
  · rw [hst, ← hid, hm.filter_eq_nil hv hh]
    simp

theorem inTree_iff (hm : m.Sound db resolve root log) {n : Node} (hn : n ∈ m.state.database.nodes) :
    n.status = .inTree ↔ ∃ h ∈ m.settled, ∃ v, m.state.tree.vertex? h = some v ∧ v.id = n.id := by
  rcases hm.status_cases hn with ⟨hst, habsent⟩ | ⟨h, v, hv, hid, ⟨hst, hh⟩ | ⟨hst, hh⟩⟩
  · refine iff_of_false (fun hs => ?_) fun hx => ?_
    · rw [hs] at hst
      cases hst
    · obtain ⟨h, _, v, hv, hid⟩ := hx
      exact habsent v (Tree.mem_vertices.2 ⟨h, hv⟩) hid
  · refine iff_of_false (fun hs => ?_) fun hx => ?_
    · rw [hs] at hst
      cases hst
    · obtain ⟨k, hk, w, hw, hwn⟩ := hx
      exact hh (hm.eq_of_id hw hv (hwn.trans hid.symm) ▸ hk)
  · exact iff_of_true hst ⟨h, hh, v, hv, hid⟩

/-- An entry is that of a vertex with its parents. -/
theorem queued (hm : m.Sound db resolve root log) {c : Candidate} (hc : c ∈ m.state.queue.candidates) :
    ∃ v, m.state.tree.vertex? c.handle = some v ∧ c = ⟨c.handle, v.distance, v.id⟩ ∧ v.parents ≠ [] ∧
      ∀ p ∈ v.parents, p ∈ m.settled := by
  obtain ⟨hh, w, hw, he⟩ := (hm.explores.queued.mem_iff c).1 hc
  obtain ⟨v, hv, rfl⟩ := Tree.label?_eq_some.1 hw
  exact ⟨v, hv, he.symm, hm.parents_ne_nil hv hh, fun p hp => hm.mem_settled_of_parent hv hp⟩

/-- **At every moment the records agree.** -/
theorem consistent (hm : m.Sound db.reset resolve root log) : m.Consistent db where
  content := by
    obtain ⟨st, hdb, _⟩ := hm.explores.statuses
    rw [hdb, Database.reset_mapStatus, Database.reset_reset]
  externals e he := by
    obtain ⟨st, hdb, _⟩ := hm.explores.statuses
    rw [hdb] at he
    obtain ⟨x, _, rfl⟩ := List.mem_map.1 he
    rfl
  distinct := Tree.nodup_ids hm.eq_of_id
  stored v hv := by
    obtain ⟨n, hn, hk⟩ := hm.exists_node hv
    rw [Database.get?_reset] at hn
    obtain ⟨k, hk', rfl⟩ := Option.map_eq_some_iff.1 hn
    exact ⟨k, hk', hk⟩
  notExplored_iff _ := hm.notExplored_iff
  candidate_iff _ := hm.candidate_iff
  inTree_iff _ := hm.inTree_iff
  entry _ := hm.exists_entry
  queued _ := hm.queued
  once := hm.explores.labelled.nodup
  bounded := by simpa [Database.reset, Database.mapStatus] using hm.length_popped_lt

/-- **At every moment the next step finds what it looks up.** -/
theorem answers (hm : m.Sound db resolve root log) : m.Answers where
  current := by
    obtain ⟨w, _, hw, _⟩ := hm.ahead
    obtain ⟨v, hv, _⟩ := Tree.label?_eq_some.1 hw
    exact ⟨v, hv⟩
  ahead e he := by
    obtain ⟨w, behind, _, hedges, _⟩ := hm.ahead
    obtain ⟨st, hdb, _⟩ := hm.explores.statuses
    have hedge : e ∈ db.edges w.kind := hedges ▸ List.mem_append_right behind he
    obtain ⟨k, hk⟩ := Option.isSome_iff_exists.1 (Database.isSome_get?_of_mem_edges hedge)
    have hget : m.state.database.get? e.target = some (k.withStatus (st k.id)) := by
      rw [hdb, Database.get?_mapStatus, hk, Option.map_some]
    refine ⟨_, hget, fun hs => ?_⟩
    obtain ⟨h, v, hfind, hv, _, hentry⟩ := hm.exists_entry (Database.get?_eq_some_iff.1 hget).1 hs
    have hmem : (⟨h, v.distance, (k.withStatus (st k.id)).id⟩ : Candidate) ∈ m.state.queue.candidates :=
      List.mem_of_mem_filter (hentry ▸ List.mem_singleton_self _)
    exact ⟨h, v, hfind, hv, CandidateQueue.queued_iff.2 ⟨_, hmem, rfl⟩⟩
  pop h q hp := by
    obtain ⟨_, c, hc, rfl, _⟩ := CandidateQueue.pop?_eq_some hm.explores.queued.wellFormed hp
    obtain ⟨v, hv, _⟩ := hm.queued hc
    exact ⟨⟨v, hv⟩, hm.addToParents_fst hv⟩

end Moment.Sound

/-- **The main loop**: at every moment of the run of a router the four records agree and the next
    step finds what it looks up; and the run ends after fewer pops than the database has nodes. -/
theorem Database.consistent_run (db : Database) (resolve : Resolver) {root : Address} {n : Node}
    (hn : db.get? root = some n) (hk : n.kind.isRouter = true) :
    (∀ m, db.ComesTo resolve root m → m.Consistent db ∧ m.Answers) ∧
      ∃ last, db.EndsAt resolve root last ∧ last.popped.length < db.nodes.length := by
  have hall : ∀ m, db.ComesTo resolve root m → m.Consistent db ∧ m.Answers := fun m hm => by
    obtain ⟨_, hsound⟩ := hm.sound
    exact ⟨hsound.consistent, hsound.answers⟩
  obtain ⟨last, hend⟩ := db.exists_endsAt resolve hn hk
  exact ⟨hall, last, hend, (hall last hend.comesTo).1.bounded⟩

/-- With a link to the root itself and one that is repeated at a lower cost the run makes five pops;
    the database has seven nodes. -/
theorem Database.irregular_consistent :
    ∃ n, irregular.get? (.ofOctets 10 0 0 1) = some n ∧ n.kind.isRouter = true ∧
      (∀ m, irregular.ComesTo InterfaceTable.empty.resolve (.ofOctets 10 0 0 1) m → m.Consistent irregular ∧ m.Answers) ∧
      ∃ last, irregular.EndsAt InterfaceTable.empty.resolve (.ofOctets 10 0 0 1) last ∧
        last.popped = [1, 2, 4, 3, 5] ∧ last.popped.length < irregular.nodes.length := by
  obtain ⟨n, hn, hk⟩ : ∃ n, irregular.get? (.ofOctets 10 0 0 1) = some n ∧ n.kind.isRouter = true := ⟨_, rfl, rfl⟩
  have horder : irregular.settleOrder InterfaceTable.empty.resolve (.ofOctets 10 0 0 1) = [0, 1, 2, 4, 3, 5] := by
    decide +kernel
  obtain ⟨hall, last, hend, hlt⟩ := irregular.consistent_run InterfaceTable.empty.resolve hn hk
  exact ⟨n, hn, hk, hall, last, hend, (List.cons.inj (hend.order.symm.trans horder)).2, hlt⟩

end LinkState
