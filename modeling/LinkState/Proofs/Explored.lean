import LinkState.Proofs.Exploration

/-!
# Explored trees

`Explored db resolve root t order` is all that later proofs need to know of the tree of a run. It
speaks of the topology of `db`, of the tree and of the order in which its vertices were settled, and
neither of the queue nor of statuses:

* the vertices are nodes of the topology, each once, and edges do not lead out of the tree (`closed`);
* a vertex other than the root sums up the edges that lead to it from vertices settled earlier
  (`sumsUp`);
* a vertex that could have been settled in the place of another has the greater rank (`least`).

Every run ends with such a tree (`Database.exists_explored`).
-/

namespace LinkState

/-- An edge of the topology that leads to the node `id` from a vertex settled before `h`. -/
structure Tree.Offers (t : Tree) (db : Database) (order : List Handle) (h : Handle) (id : Address) (o : Offer) :
    Prop where
  before : Before order o.origin h
  source : t.vertex? o.origin = some o.source
  edge : o.edge ∈ db.edges o.source.kind
  target : o.edge.target = id

/-- The tree of a run in which the vertices were settled in the given order. -/
structure Explored (db : Database) (resolve : Resolver) (root : Address) (t : Tree) (order : List Handle) :
    Prop where
  nodup : order.Nodup
  mem_order : ∀ {h}, h ∈ order ↔ h < t.size
  head : order.head? = some Tree.root
  node : ∀ {h v}, t.vertex? h = some v → ∃ n, db.get? v.id = some n ∧ n.kind = v.kind
  distinct : ∀ {h k v w}, t.vertex? h = some v → t.vertex? k = some w → v.id = w.id → h = k
  root : ∃ v, t.vertex? Tree.root = some v ∧ v.id = root ∧ v.distance = 0 ∧ v.exits = [] ∧ v.parents = []
  closed : ∀ {h v e}, t.vertex? h = some v → e ∈ db.edges v.kind → ∃ k w, t.vertex? k = some w ∧ w.id = e.target
  sumsUp : ∀ {h w}, t.vertex? h = some w → h ≠ Tree.root → SumsUp resolve (t.Offers db order h w.id) w
  least : ∀ {p q u v w}, t.vertex? p = some v → t.vertex? q = some w → u ∈ w.parents →
    Before order u p → Before order p q → v.rank < w.rank

/-! ## 1. Statuses are no part of the topology -/

namespace Database

theorem get?_reset (db : Database) (id : Address) :
    db.reset.get? id = (db.get? id).map (·.withStatus .notExplored) :=
  db.get?_mapStatus (fun _ => .notExplored) id

theorem edges_reset (db : Database) (k : NodeKind) : db.reset.edges k = db.edges k := by
  rw [← db.edges_mapStatus (fun _ => .notExplored) k]
  cases k <;> rfl

theorem mapStatus_reset (db : Database) : db.reset.mapStatus (fun _ => .notExplored) = db.reset :=
  ext_parts (by simp [reset, mapStatus, Node.withStatus]) rfl

theorem rootRouter_reset {db : Database} {root : Address} {n : Node} (hn : db.get? root = some n)
    (hk : n.kind.isRouter = true) : db.reset.rootRouter root = .ok (n.withStatus .notExplored) := by
  simp [rootRouter, get?_reset, hn, hk]

end Database

theorem Explored.of_reset {db : Database} {resolve : Resolver} {root : Address} {t : Tree} {order : List Handle}
    (h : Explored db.reset resolve root t order) : Explored db resolve root t order where
  nodup := h.nodup
  mem_order := h.mem_order
  head := h.head
  node hv := by
    obtain ⟨n, hn, hk⟩ := h.node hv
    rw [Database.get?_reset] at hn
    obtain ⟨m, hm, rfl⟩ := Option.map_eq_some_iff.1 hn
    exact ⟨m, hm, hk⟩
  distinct := h.distinct
  root := h.root
  closed {k v e} hv he := h.closed hv (db.edges_reset v.kind ▸ he)
  sumsUp hw hr := (h.sumsUp hw hr).congr fun o =>
    ⟨fun ho => ⟨ho.before, ho.source, db.edges_reset _ ▸ ho.edge, ho.target⟩,
      fun ho => ⟨ho.before, ho.source, (db.edges_reset _).symm ▸ ho.edge, ho.target⟩⟩
  least := h.least

/-! ## 2. The end of a run -/

/-- A run that has settled every vertex and followed every edge leaves an explored tree. -/
theorem Explores.explored {db : Database} {resolve : Resolver} {root : Address} {order : List Handle}
    {log : List (Handle × Edge)} {s : Exploration} (hs : Explores db resolve root order log s)
    (hall : ∀ h v, s.tree.label? h = some v → h ∈ order) (hr : Relaxed db log s) :
    Explored db resolve root s.tree order := by
  have hl := hs.labelled
  have hlog : ∀ {p v e}, s.tree.label? p = some v → e ∈ db.edges v.kind → (p, e) ∈ log := by
    intro p v e hv he
    by_cases hp : p = s.current
    · subst hp
      exact hr v e hv he
    · exact hs.complete (hall p v hv) hp hv he
  have hoffer : ∀ h id p v e, IsOffer s.tree.label? order log h id ⟨p, v, e⟩ ↔
      ∃ x, v = x.label ∧ s.tree.Offers db order h id ⟨p, x, e⟩ := by
    intro h id p v e
    refine ⟨fun hq => ?_, fun hq => ?_⟩
    · obtain ⟨hb, hm, hv, ht⟩ := hq
      obtain ⟨x, hx, rfl⟩ := Tree.label?_eq_some.1 hv
      obtain ⟨y, hy, he⟩ := hs.edges hm
      rw [hv, Option.some.injEq] at hy
      subst hy
      exact ⟨x, rfl, hb, hx, he, ht⟩
    · obtain ⟨x, rfl, hb, hx, he, ht⟩ := hq
      have hv := Tree.label?_of_vertex? hx
      exact ⟨hb, hlog hv he, hv, ht⟩
  constructor
  case nodup => exact hl.nodup
  case mem_order =>
    intro h
    refine ⟨fun hh => ?_, fun hh => ?_⟩
    · obtain ⟨v, hv⟩ := hl.settled hh
      obtain ⟨x, hx, _⟩ := Tree.label?_eq_some.1 hv
      exact Tree.vertex?_lt hx
    · obtain ⟨x, hx⟩ := Tree.exists_vertex? hh
      exact hall h _ (Tree.label?_of_vertex? hx)
  case head => exact hl.head
  case node =>
    intro h v hv
    exact hl.node (v := v.label) (Tree.label?_of_vertex? hv)
  case distinct =>
    intro h k v w hv hw hid
    exact hl.distinct (v := v.label) (w := w.label) (Tree.label?_of_vertex? hv) (Tree.label?_of_vertex? hw) hid
  case root =>
    obtain ⟨v, hv, hid, hd, hx, hp⟩ := hl.root
    obtain ⟨x, hx', rfl⟩ := Tree.label?_eq_some.1 hv
    exact ⟨x, hx', hid, hd, hx, hp⟩
  case closed =>
    intro h v e hv he
    obtain ⟨_, k, w, hw, ht⟩ := hl.followed (hlog (Tree.label?_of_vertex? hv) he)
    obtain ⟨x, hx, rfl⟩ := Tree.label?_eq_some.1 hw
    exact ⟨k, x, hx, ht⟩
  case sumsUp =>
    intro h w hw hr
    exact (hl.sumsUp (Tree.label?_of_vertex? hw) hr).of_label (hoffer h w.id)
  case least =>
    intro p q u v w hv hw hu hup hpq
    exact hl.least (v := v.label) (w := w.label) (Tree.label?_of_vertex? hv) (Tree.label?_of_vertex? hw) hu hup hpq

/-- The start of a run: the root is settled, and nothing else is known. -/
theorem Explores.start (db : Database) (resolve : Resolver) {n : Node}
    (hn : ∃ m, db.get? n.id = some m ∧ m.kind = n.kind)
    (hfresh : db.mapStatus (fun _ => .notExplored) = db) :
    Explores db resolve n.id [Tree.root] [] (Exploration.start db n) := by
  have hlook : (Exploration.start db n).tree.label? =
      fun h => if h = Tree.root then some (Vertex.ofNode n) else none := by
    funext h
    cases h <;> rfl
  have hroot : ∀ {h v}, (Exploration.start db n).tree.label? h = some v → h = Tree.root ∧ v = Vertex.ofNode n := by
    intro h v hv
    rw [hlook] at hv
    dsimp only at hv
    split at hv
    · exact ⟨‹_›, (Option.some.inj hv).symm⟩
    · cases hv
  constructor
  case labelled =>
    rw [hlook]
    exact Labelled.start (v := Vertex.ofNode n) hn rfl rfl rfl
  case queued =>
    refine ⟨CandidateQueue.wellFormed_empty, fun c => iff_of_false List.not_mem_nil ?_,
      fun id h => iff_of_false (fun he => by cases he) ?_⟩
    · intro hx
      obtain ⟨hc, v, hv, _⟩ := hx
      exact hc (List.mem_singleton.2 (hroot hv).1)
    · intro hx
      obtain ⟨hc, v, hv, _⟩ := hx
      exact hc (List.mem_singleton.2 (hroot hv).1)
  case statuses =>
    refine ⟨fun id => if id = n.id then .inTree else .notExplored, ?_, ⟨?_, ?_⟩⟩
    · have := db.mark_mapStatus (fun _ => .notExplored) n.id .inTree
      rw [hfresh] at this
      exact this
    · intro h v hv
      obtain ⟨rfl, rfl⟩ := hroot hv
      rw [if_pos (List.mem_singleton.2 rfl)]
      exact if_pos rfl
    · intro id ha
      have := ha Tree.root (Vertex.ofNode n) (by rw [hlook]; exact if_pos rfl)
      exact if_neg (Ne.symm this)
  case last => rfl
  case edges =>
    intro p e hp
    exact absurd hp List.not_mem_nil
  case complete =>
    intro p v e hp hne
    exact absurd (List.mem_singleton.1 hp) hne

/-- So starts the run of a root, after all statuses have been reset. -/
theorem Explores.start_reset {db : Database} (resolve : Resolver) {n : Node} (hn : db.get? n.id = some n) :
    Explores db.reset resolve n.id [Tree.root] []
      (Exploration.start db.reset (n.withStatus .notExplored)) := by
  have hget : db.reset.get? n.id = some (n.withStatus .notExplored) := by rw [Database.get?_reset, hn]; rfl
  exact Explores.start db.reset resolve (n := n.withStatus .notExplored) ⟨_, hget, rfl⟩ db.mapStatus_reset

/-- A run that ends with a tree was given a router. -/
theorem Database.exists_router_of_run {db db' : Database} {resolve : Resolver} {root : Address} {t : Tree}
    (hrun : db.shortestPathTree resolve root = (.ok t, db')) :
    ∃ n, db.get? root = some n ∧ n.kind.isRouter = true := by
  unfold shortestPathTree rootRouter at hrun
  rw [get?_reset] at hrun
  cases hn : db.get? root with
  | none => simp [hn] at hrun
  | some n =>
    refine ⟨n, rfl, Classical.byContradiction fun hk => ?_⟩
    simp [hn, hk] at hrun

/-- The statuses after a run: the nodes of the tree are in the tree, all others are unexplored. -/
structure Tree.Marks (t : Tree) (st : Address → Status) : Prop where
  vertex : ∀ {h v}, t.vertex? h = some v → st v.id = .inTree
  absent : ∀ {id}, (∀ h v, t.vertex? h = some v → v.id ≠ id) → st id = .notExplored

/-- **Every root that is a router has an explored tree**, and the run changes nothing but statuses. -/
theorem Database.exists_explored (db : Database) (resolve : Resolver) {root : Address} {n : Node}
    (hn : db.get? root = some n) (hk : n.kind.isRouter = true) :
    ∃ t db', db.shortestPathTree resolve root = (.ok t, db') ∧
      Explored db resolve root t (db.settleOrder resolve root) ∧
      ∃ st : Address → Status, (db' = db.reset.mapStatus fun m => st m.id) ∧ t.Marks st := by
  have hid : n.id = root := (get?_eq_some_iff.1 hn).2
  subst hid
  have hroot := rootRouter_reset hn hk
  obtain ⟨log, hs, hall, hr⟩ :=
    Explores.explore (s := Exploration.start db.reset (n.withStatus .notExplored)) (Explores.start_reset resolve hn)
  have horder : db.settleOrder resolve n.id =
      ((Exploration.start db.reset (n.withStatus .notExplored)).states resolve).map (·.current) := by
    rw [settleOrder, hroot]
  rw [← horder] at hs hall
  obtain ⟨st, hdb, hst⟩ := hs.statuses
  refine ⟨_, _, by rw [shortestPathTree, hroot], (hs.explored hall hr).of_reset, st, hdb, ?_, ?_⟩
  · intro h v hv
    have hv' := Tree.label?_of_vertex? hv
    have := hst.vertex hv'
    rwa [if_pos (hall h _ hv')] at this
  · intro id ha
    refine hst.absent fun h v hv => ?_
    obtain ⟨x, hx, rfl⟩ := Tree.label?_eq_some.1 hv
    exact ha h x hx

/-! ## 3. Along the order -/

namespace Explored

variable {db : Database} {resolve : Resolver} {root : Address} {t : Tree} {order : List Handle}

/-- **Induction along the order**: a property passes from the vertices settled earlier to the next. -/
theorem settleInduction (order : List Handle) (P : Handle → Vertex → Prop)
    (step : ∀ h w, t.vertex? h = some w → (∀ p v, Before order p h → t.vertex? p = some v → P p v) → P h w) :
    ∀ h w, t.vertex? h = some w → P h w := by
  have key : ∀ n h w, order.idxOf h = n → t.vertex? h = some w → P h w := by
    intro n
    induction n using Nat.strongRecOn with
    | ind n ih =>
      intro h w hn hw
      exact step h w hw fun p v hp hv => ih _ (hn ▸ hp) p v rfl hv
  exact fun h w hw => key _ h w rfl hw

theorem mem_of_vertex? (ht : Explored db resolve root t order) {h : Handle} {v : Vertex}
    (hv : t.vertex? h = some v) : h ∈ order :=
  ht.mem_order.2 (Tree.vertex?_lt hv)

/-- An identifier has one vertex. -/
theorem eq_of_id (ht : Explored db resolve root t order) {h k : Handle} {v w : Vertex}
    (hv : t.vertex? h = some v) (hw : t.vertex? k = some w) (hid : v.id = w.id) : v = w := by
  rw [ht.distinct hv hw hid, hw, Option.some.injEq] at hv
  exact hv.symm

theorem id_root (ht : Explored db resolve root t order) {v : Vertex} (hv : t.vertex? Tree.root = some v) :
    v.id = root := by
  obtain ⟨x, hx, hid, _⟩ := ht.root
  rw [hv, Option.some.injEq] at hx
  exact hx ▸ hid

theorem distance_root (ht : Explored db resolve root t order) {v : Vertex}
    (hv : t.vertex? Tree.root = some v) : v.distance = 0 := by
  obtain ⟨x, hx, _, hd, _⟩ := ht.root
  rw [hv, Option.some.injEq] at hx
  exact hx ▸ hd

theorem exits_root (ht : Explored db resolve root t order) {v : Vertex} (hv : t.vertex? Tree.root = some v) :
    v.exits = [] := by
  obtain ⟨x, hx, _, _, hexits, _⟩ := ht.root
  rw [hv, Option.some.injEq] at hx
  exact hx ▸ hexits

/-- A vertex has the distance over each of its parents. -/
theorem exists_offer (ht : Explored db resolve root t order) {h p : Handle} {w : Vertex}
    (hw : t.vertex? h = some w) (hr : h ≠ Tree.root) (hp : p ∈ w.parents) :
    ∃ o, t.Offers db order h w.id o ∧ o.distance = w.distance ∧ o.origin = p :=
  ((ht.sumsUp hw hr).mem_parents p).1 hp

theorem source_distance_le (o : Offer) : o.source.distance.toNat ≤ o.distance.toNat :=
  Metric.le_extend _ _

/-- **Distances never fall in the order of settling.** -/
theorem distance_le_of_before (ht : Explored db resolve root t order) {p : Handle} {v : Vertex}
    (hv : t.vertex? p = some v) : ∀ q w, t.vertex? q = some w → Before order p q →
      v.distance.toNat ≤ w.distance.toNat := by
  refine settleInduction order (fun q w => Before order p q → v.distance.toNat ≤ w.distance.toNat) ?_
  intro q w hw ih hpq
  have hq : q ≠ Tree.root := fun hr => Before.not_head ht.head (hr ▸ hpq)
  obtain ⟨o, ho, hd⟩ := (ht.sumsUp hw hq).attained
  have hle : o.source.distance.toNat ≤ w.distance.toNat := hd ▸ source_distance_le o
  by_cases hpo : p = o.origin
  · have hvo : v = o.source := by
      rw [hpo, ho.source, Option.some.injEq] at hv
      exact hv.symm
    exact hvo ▸ hle
  · rcases Before.total hpq.mem hpo with hbefore | hafter
    · exact Nat.le_trans (ih o.origin o.source ho.before ho.source hbefore) hle
    · -- the vertex had its label when `p` was settled in its place
      have hparent : o.origin ∈ w.parents := ((ht.sumsUp hw hq).mem_parents _).2 ⟨o, ho, hd, rfl⟩
      exact Vertex.distance_le_of_rank_lt (ht.least hv hw hparent hafter hpq)

/-- A vertex that is nearer is settled earlier. -/
theorem before_of_distance_lt (ht : Explored db resolve root t order) {p h : Handle} {v w : Vertex}
    (hv : t.vertex? p = some v) (hw : t.vertex? h = some w) (hlt : v.distance.toNat < w.distance.toNat) :
    Before order p h := by
  have hne : p ≠ h := by
    intro hx
    subst hx
    rw [hv, Option.some.injEq] at hw
    exact Nat.lt_irrefl _ (hw ▸ hlt)
  rcases Before.total (ht.mem_of_vertex? hv) hne with hb | hb
  · exact hb
  · exact absurd (ht.distance_le_of_before hw p v hv hb) (Nat.not_le_of_lt hlt)

/-- **An edge never shortens a distance**: its target is at most as far as the edge leads. -/
theorem distance_le_of_edge (ht : Explored db resolve root t order) {p h : Handle} {v w : Vertex} {e : Edge}
    (hv : t.vertex? p = some v) (he : e ∈ db.edges v.kind) (hw : t.vertex? h = some w) (hid : w.id = e.target) :
    w.distance.toNat ≤ (v.distance.extend e.cost).toNat := by
  by_cases hr : h = Tree.root
  · have hd := ht.distance_root (hr ▸ hw)
    rw [hd]
    exact Nat.zero_le _
  · by_cases hph : p = h
    · have hvw : v = w := by
        rw [hph, hw, Option.some.injEq] at hv
        exact hv.symm
      rw [← hvw]
      exact Metric.le_extend _ _
    · rcases Before.total (ht.mem_of_vertex? hv) hph with hb | hb
      · exact (ht.sumsUp hw hr).le ⟨p, v, e⟩ ⟨hb, hv, he, hid.symm⟩
      · exact Nat.le_trans (ht.distance_le_of_before hw p v hv hb) (Metric.le_extend _ _)

end Explored

end LinkState
