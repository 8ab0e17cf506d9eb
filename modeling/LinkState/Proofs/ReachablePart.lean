import Mathlib.Data.List.Basic
import LinkState.Proofs.RootIsolation

/-!
# Only the reachable part counts

What a root cannot reach has no influence on its routes. The database is restricted to a set of
nodes that is `Closed`, which no edge leads out of, and to some of the externals. A run on the
restricted database goes in lock-step with the run on the whole one:

* `Database.edges_restrict`: a kept node has its old edges, since look-ups find what edges lead to;
* `Exploration.relaxEdge_restrict`, `Exploration.next?_restrict`: one step on the restricted database
  is the restriction of the step on the whole one;
* `Exploration.explore_restrict`: and so is the whole run.

The nodes that the root reaches are such a set, and an external counts only if one of the routers
among them announces it (`Database.calculate_reachablePart`).
-/

namespace LinkState

/-! ## 1. Restricted databases -/

/-- A search finds the same among fewer elements, if what it finds is still there. -/
theorem find?_filter_of_kept {α : Type} {p q : α → Bool} : ∀ {xs : List α},
    (∀ x, xs.find? q = some x → p x = true) → (xs.filter p).find? q = xs.find? q
  | [], _ => rfl
  | x :: xs, h => by
    by_cases hq : q x = true
    · have hp : p x = true := h x (List.find?_cons_of_pos hq)
      rw [List.filter_cons_of_pos hp, List.find?_cons_of_pos hq, List.find?_cons_of_pos hq]
    · rw [List.find?_cons_of_neg hq] at h ⊢
      by_cases hp : p x = true
      · rw [List.filter_cons_of_pos hp, List.find?_cons_of_neg hq, find?_filter_of_kept h]
      · rw [List.filter_cons_of_neg hp, find?_filter_of_kept h]

namespace Database

/-- The nodes whose identifiers are kept, and the externals whose announcers are. -/
def restrict (db : Database) (keep announcer : Address → Bool) : Database where
  nodes := db.nodes.filter (keep ·.id)
  externals := db.externals.filter (announcer ·.advertisingRouter)
  ascending := db.ascending.filter _

/-- No edge leads from a node that is kept to one that is not. -/
def Closed (db : Database) (keep : Address → Bool) : Prop :=
  ∀ id n, keep id = true → db.get? id = some n → ∀ e ∈ db.edges n.kind, keep e.target = true

variable {db : Database} {keep announcer : Address → Bool}

theorem restrict_mapStatus (db : Database) (f : Node → Status) :
    (db.mapStatus f).restrict keep announcer = (db.restrict keep announcer).mapStatus f :=
  ext_parts List.filter_map rfl

theorem restrict_mark (db : Database) (id : Address) (s : Status) :
    (db.mark id s).restrict keep announcer = (db.restrict keep announcer).mark id s :=
  db.restrict_mapStatus _

theorem restrict_reset (db : Database) :
    db.reset.restrict keep announcer = (db.restrict keep announcer).reset :=
  ext_parts List.filter_map List.filter_map

theorem get?_restrict {id : Address} (h : ∀ n, db.get? id = some n → keep n.id = true) :
    (db.restrict keep announcer).get? id = db.get? id :=
  find?_filter_of_kept h

theorem get?_restrict_of_kept {id : Address} (h : keep id = true) :
    (db.restrict keep announcer).get? id = db.get? id :=
  get?_restrict fun _ hn => (get?_eq_some_iff.1 hn).2 ▸ h

theorem getByLinkData?_restrict {a : Address} (h : ∀ n, db.getByLinkData? a = some n → keep n.id = true) :
    (db.restrict keep announcer).getByLinkData? a = db.getByLinkData? a :=
  find?_filter_of_kept h

/-- What a link leads to is found as before, if it is kept wherever it is an edge. -/
theorem get?_restrict_of_link {k : NodeKind} (h : ∀ e ∈ db.edges k, keep e.target = true) {l : Link}
    (hl : l ∈ k.transitLinks) : (db.restrict keep announcer).get? l.id = db.get? l.id := by
  refine get?_restrict fun n hn => ?_
  cases k with
  | router links =>
    obtain ⟨hl, htr⟩ := List.mem_filter.1 hl
    exact h _ (mem_edges_router.2 ⟨l, hl, htr, n, hn, rfl⟩)
  | network mask attached => cases hl

/-- **A kept node has its old edges**, as long as they lead to kept nodes. -/
theorem edges_restrict {k : NodeKind} (h : ∀ e ∈ db.edges k, keep e.target = true) :
    (db.restrict keep announcer).edges k = db.edges k := by
  cases k with
  | router links =>
    refine List.filterMap_congr fun l hl => ?_
    rw [get?_restrict_of_link h hl]
  | network mask attached =>
    refine List.filterMap_congr fun a ha => ?_
    rw [getByLinkData?_restrict fun n hn => h _ (mem_edges_network.2 ⟨a, ha, n, hn, rfl⟩)]

end Database

/-! ## 2. A run in lock-step -/

namespace Exploration

variable {keep announcer : Address → Bool} {resolve : Resolver}

/-- The state of the run on the restricted database. -/
def restrict (s : Exploration) (keep announcer : Address → Bool) : Exploration :=
  { s with database := s.database.restrict keep announcer }

@[simp] theorem tree_restrict (s : Exploration) : (s.restrict keep announcer).tree = s.tree := rfl

@[simp] theorem queue_restrict (s : Exploration) : (s.restrict keep announcer).queue = s.queue := rfl

@[simp] theorem current_restrict (s : Exploration) : (s.restrict keep announcer).current = s.current := rfl

@[simp] theorem database_restrict (s : Exploration) :
    (s.restrict keep announcer).database = s.database.restrict keep announcer := rfl

theorem discover_restrict (s : Exploration) (w : Node) (d : Metric) (exits : List Exit) :
    (s.restrict keep announcer).discover w d exits = (s.discover w d exits).restrict keep announcer := by
  simp only [restrict, discover, Database.restrict_mark]

theorem reach_restrict (s : Exploration) (c : Handle) (id : Address) (d : Metric) (exits : List Exit) :
    (s.restrict keep announcer).reach c id d exits = (s.reach c id d exits).restrict keep announcer := by
  simp only [reach, merge, improve, restrict]
  split
  · rfl
  · split
    · rfl
    · split <;> rfl

/-- **Following an edge to a kept node.** -/
theorem relaxEdge_restrict (s : Exploration) {e : Edge} (he : keep e.target = true) :
    (s.restrict keep announcer).relaxEdge resolve e = (s.relaxEdge resolve e).restrict keep announcer := by
  unfold relaxEdge
  rw [tree_restrict, current_restrict, database_restrict, Database.get?_restrict_of_kept he]
  cases s.tree.vertex? s.current with
  | none => rfl
  | some v =>
    cases s.database.get? e.target with
    | none => rfl
    | some w =>
      dsimp only
      cases w.status with
      | inTree => rfl
      | notExplored => exact s.discover_restrict w _ _
      | candidate =>
        rw [queue_restrict]
        cases s.queue.find? w.id with
        | none => rfl
        | some c => exact s.reach_restrict c _ _ _

theorem foldl_relaxEdge_restrict : ∀ (es : List Edge) (s : Exploration), (∀ e ∈ es, keep e.target = true) →
    es.foldl (relaxEdge resolve) (s.restrict keep announcer) =
      (es.foldl (relaxEdge resolve) s).restrict keep announcer
  | [], _, _ => rfl
  | e :: es, s, h => by
    rw [List.foldl_cons, List.foldl_cons, s.relaxEdge_restrict (h e List.mem_cons_self)]
    exact foldl_relaxEdge_restrict es _ fun e he => h e (List.mem_cons_of_mem _ he)

/-- **Relaxing a vertex** whose edges lead to kept nodes. -/
theorem relax_restrict (s : Exploration) (h : ∀ v, s.tree.vertex? s.current = some v →
    ∀ e ∈ s.database.edges v.kind, keep e.target = true) :
    (s.restrict keep announcer).relax resolve = (s.relax resolve).restrict keep announcer := by
  unfold relax
  rw [tree_restrict, current_restrict, database_restrict]
  cases hv : s.tree.vertex? s.current with
  | none => rfl
  | some v =>
    dsimp only
    rw [Database.edges_restrict (h v hv)]
    exact foldl_relaxEdge_restrict _ s (h v hv)

/-- **Settling** does not look at the database. -/
theorem settle_restrict (s : Exploration) (h : Handle) (q : CandidateQueue) :
    (s.restrict keep announcer).settle h q = (s.settle h q).restrict keep announcer := by
  simp only [settle, restrict]
  cases s.tree.vertex? h with
  | none => rfl
  | some v => simp only [Database.restrict_mark]

theorem next?_restrict (s : Exploration) :
    (s.restrict keep announcer).next? = s.next?.map (·.restrict keep announcer) := by
  unfold next?
  rw [Option.map_map]
  exact congrArg (Option.map · s.queue.pop?) (funext fun x => s.settle_restrict x.1 x.2)

end Exploration

section Run

variable {db : Database} {keep announcer : Address → Bool} {resolve : Resolver} {root : Address}

/-- **A run comes upon kept nodes only**, since it starts at one and follows edges. -/
theorem Explores.keeps {order : List Handle} {log : List (Handle × Edge)} {s : Exploration}
    (hs : Explores db resolve root order log s) (hc : db.Closed keep) (hroot : keep root = true) :
    ∀ {h v}, s.tree.label? h = some v → keep v.id = true := by
  intro h v hv
  have hl := hs.labelled
  induction hidx : order.idxOf h using Nat.strongRecOn generalizing h v with
  | ind i ih =>
    subst hidx
    by_cases hr : h = Tree.root
    · obtain ⟨x, hx, hid, _⟩ := hl.root
      rw [← hr, hv, Option.some.injEq] at hx
      rw [hx, hid]
      exact hroot
    · obtain ⟨o, ⟨hb, hlog, ho, ht⟩, _⟩ := (hl.sumsUp hv hr).attained
      obtain ⟨u, hu, he⟩ := hs.edges hlog
      obtain ⟨n, hn, hk⟩ := hl.node hu
      rw [← ht]
      exact hc u.id n (ih _ hb hu rfl) hn _ (hk ▸ he)

/-- So the edges that it follows lead to kept nodes. -/
theorem Explores.edges_kept {order : List Handle} {log : List (Handle × Edge)} {s : Exploration}
    (hs : Explores db resolve root order log s) (hc : db.Closed keep) (hroot : keep root = true) {h : Handle}
    {v : Vertex} (hv : s.tree.vertex? h = some v) : ∀ e ∈ s.database.edges v.kind, keep e.target = true := by
  intro e he
  have hlabel := Tree.label?_of_vertex? hv
  obtain ⟨st, hdb, _⟩ := hs.statuses
  obtain ⟨n, hn, hk⟩ := hs.labelled.node hlabel
  rw [hdb, Database.edges_mapStatus] at he
  exact hc v.id n (hs.keeps hc hroot (v := v.label) hlabel) hn e (hk ▸ he)

/-- **A run on the restricted database** goes in lock-step with the run on the whole one. -/
theorem Exploration.explore_restrict (hc : db.Closed keep) (hroot : keep root = true) {s : Exploration} :
    ∀ {front : List Handle} {log : List (Handle × Edge)},
      Explores db resolve root (front ++ [s.current]) log s →
        (s.restrict keep announcer).explore resolve = (s.explore resolve).restrict keep announcer := by
  induction s using Exploration.explore.induct resolve with
  | case1 s s' hn ih =>
    intro front log hs
    obtain ⟨_, log', hs', hr⟩ := hs.relax
    obtain ⟨_, _, hs''⟩ := hs'.next? hr hn
    have hn' : ((s.restrict keep announcer).relax resolve).next? = some (s'.restrict keep announcer) := by
      rw [s.relax_restrict fun _ hv => hs.edges_kept hc hroot hv, next?_restrict, hn]
      rfl
    rw [explore_of_some hn, explore_of_some hn']
    exact ih hs''
  | case2 s hn =>
    intro front log hs
    have hrelax : (s.restrict keep announcer).relax resolve = (s.relax resolve).restrict keep announcer :=
      s.relax_restrict fun v hv => hs.edges_kept hc hroot hv
    have hn' : ((s.restrict keep announcer).relax resolve).next? = none := by
      rw [hrelax, next?_restrict, hn]
      rfl
    rw [explore_of_none hn, explore_of_none hn', hrelax]

namespace Database

/-- **The tree of the restricted database** is that of the whole one, handle by handle. -/
theorem shortestPathTree_restrict (hc : db.Closed keep) {n : Node} (hn : db.get? root = some n)
    (hk : n.kind.isRouter = true) (hroot : keep root = true) :
    (db.restrict keep announcer).shortestPathTree resolve root =
      ((db.shortestPathTree resolve root).1, (db.shortestPathTree resolve root).2.restrict keep announcer) := by
  obtain rfl := (get?_eq_some_iff.1 hn).2
  have hn' : (db.restrict keep announcer).get? n.id = some n := by rw [get?_restrict_of_kept hroot, hn]
  have hstart : Exploration.start (db.restrict keep announcer).reset (n.withStatus .notExplored) =
      (Exploration.start db.reset (n.withStatus .notExplored)).restrict keep announcer := by
    simp only [Exploration.start, Exploration.restrict, restrict_mark, restrict_reset]
  have hc' : db.reset.Closed keep := fun id m hid hm => by
    rw [get?_reset] at hm
    obtain ⟨m', hm', rfl⟩ := Option.map_eq_some_iff.1 hm
    rw [edges_reset]
    exact hc id m' hid hm'
  have hs : Explores db.reset resolve n.id
      ([] ++ [(Exploration.start db.reset (n.withStatus .notExplored)).current]) [] _ :=
    Explores.start_reset resolve hn
  rw [shortestPathTree, shortestPathTree, rootRouter_reset hn hk, rootRouter_reset hn' hk]
  dsimp only
  rw [hstart, Exploration.explore_restrict hc' hroot hs]
  rfl

end Database

end Run

/-! ## 3. The routes -/

section Routes

variable {db : Database} {keep announcer : Address → Bool} {resolve : Resolver} {root : Address} {n : Node}

/-- The check for a stub looks at what the links of the root lead to. -/
theorem Database.stubCheck_restrict (h : ∀ e ∈ db.edges n.kind, keep e.target = true) :
    (db.restrict keep announcer).stubCheck resolve n = db.stubCheck resolve n := by
  unfold stubCheck
  split
  · rfl
  · rename_i uplink hlinks
    rw [get?_restrict_of_link h (hlinks ▸ List.mem_cons_self)]
  · rfl

/-- The elements that give nothing may be left out. -/
theorem flatMap_filter_of_nil {α β : Type} {p : α → Bool} {f : α → List β} : ∀ {xs : List α},
    (∀ x ∈ xs, p x = false → f x = []) → (xs.filter p).flatMap f = xs.flatMap f
  | [], _ => rfl
  | x :: xs, h => by
    have ih := flatMap_filter_of_nil fun y hy => h y (List.mem_cons_of_mem x hy)
    cases hp : p x with
    | true => rw [List.filter_cons_of_pos hp, List.flatMap_cons, List.flatMap_cons, ih]
    | false =>
      rw [List.filter_cons_of_neg (by simp [hp]), List.flatMap_cons, h x List.mem_cons_self hp, List.nil_append, ih]

/-- An external makes routes only if a router announces it that the root reaches. -/
theorem Explored.externals_eq_nil {t : Tree} {order : List Handle} (ht : Explored db resolve root t order)
    {e : External} (he : ¬ (db.Reachable root e.advertisingRouter ∧ db.hasRouter e.advertisingRouter = true)) :
    t.externals root e = [] := by
  have hnone : t.announcers root e = [] := List.filter_eq_nil_iff.2 fun w hw hann => he ?_
  · rw [Tree.externals, hnone]
    rfl
  · obtain ⟨hk, hid⟩ := Bool.and_eq_true .. ▸ hann
    obtain ⟨h, hw, _⟩ := ht.mem_belowRoot.1 hw
    obtain ⟨m, hm, hmk⟩ := ht.node hw
    rw [← beq_iff_eq.1 hid]
    exact ⟨ht.exists_vertex_iff.1 ⟨h, w, hw, rfl⟩, Database.hasRouter_iff.2 ⟨m, hm, hmk ▸ hk⟩⟩

namespace Database

/-- **The passes over the tree** write the same for the externals that are kept. -/
theorem calculateTree_restrict (hc : db.Closed keep) (hn : db.get? root = some n) (hk : n.kind.isRouter = true)
    (hroot : keep root = true)
    (hann : ∀ id, db.Reachable root id → db.hasRouter id = true → announcer id = true) :
    ((db.restrict keep announcer).calculateTree resolve root).outcome = (db.calculateTree resolve root).outcome ∧
      ((db.restrict keep announcer).calculateTree resolve root).routes = (db.calculateTree resolve root).routes := by
  obtain ⟨t, db', hrun, ht, st, hdb, _⟩ := db.exists_explored resolve hn hk
  obtain ⟨intra, stub, _, _, hall⟩ := ht.exists_allRoutes (linked_shortestPathTree hrun)
  have hrun' : (db.restrict keep announcer).shortestPathTree resolve root = (.ok t, db'.restrict keep announcer) := by
    rw [shortestPathTree_restrict hc hn hk hroot, hrun]
  have hexternals : (db'.restrict keep announcer).externals.flatMap (t.externals root) =
      db'.externals.flatMap (t.externals root) := by
    refine flatMap_filter_of_nil fun e _ he => ht.externals_eq_nil fun ⟨hreach, hrouter⟩ => ?_
    rw [hann _ hreach hrouter] at he
    cases he
  rw [calculateTree_of_allRoutes hrun (hall _), calculateTree_of_allRoutes hrun' (hall _), hexternals]
  exact ⟨rfl, rfl⟩

/-- **The routes of a root** are the same on the restricted database. -/
theorem calculate_restrict (hc : db.Closed keep) (hn : db.get? root = some n) (hk : n.kind.isRouter = true)
    (hroot : keep root = true)
    (hann : ∀ id, db.Reachable root id → db.hasRouter id = true → announcer id = true) :
    ((db.restrict keep announcer).calculate resolve root).outcome = (db.calculate resolve root).outcome ∧
      ((db.restrict keep announcer).calculate resolve root).routes = (db.calculate resolve root).routes := by
  have hn' : (db.restrict keep announcer).get? root = some n := by rw [get?_restrict_of_kept hroot, hn]
  rw [calculate_eq hn hk, calculate_eq hn' hk, stubCheck_restrict (hc root n hroot hn)]
  cases db.stubCheck resolve n with
  | isolated => exact ⟨rfl, rfl⟩
  | stub exit metric => exact ⟨rfl, rfl⟩
  | transit => exact calculateTree_restrict hc hn hk hroot hann

end Database

end Routes

/-! ## 4. The reachable part -/

namespace Database

open Classical in
/-- The part of the database that counts for a root: the nodes that it reaches, and the externals that
    are announced by routers among them. -/
noncomputable def reachablePart (db : Database) (root : Address) : Database :=
  db.restrict (fun id => decide (db.Reachable root id))
    fun id => decide (db.Reachable root id ∧ db.hasRouter id = true)

section ReachablePart

variable {db : Database} {root : Address} {keep announcer : Address → Bool}

theorem reachablePart_eq (hkeep : ∀ id, keep id = true ↔ db.Reachable root id)
    (hann : ∀ id, announcer id = true ↔ db.Reachable root id ∧ db.hasRouter id = true) :
    db.reachablePart root = db.restrict keep announcer := by
  classical
  have hk : (fun id => decide (db.Reachable root id)) = keep :=
    funext fun id => Bool.eq_iff_iff.2 (decide_eq_true_iff.trans (hkeep id).symm)
  have ha : (fun id => decide (db.Reachable root id ∧ db.hasRouter id = true)) = announcer :=
    funext fun id => Bool.eq_iff_iff.2 (decide_eq_true_iff.trans (hann id).symm)
  rw [← hk, ← ha]
  rfl

/-- **It is what the shortest-path tree holds**: its vertices, and the externals of its routers. -/
theorem reachablePart_eq_of_isShortest {t : Tree} (ht : t.IsShortest db root) :
    db.reachablePart root = db.restrict (fun id => t.vertices.any (·.id == id))
      fun id => t.vertices.any fun v => v.kind.isRouter && v.id == id := by
  have hmem : ∀ id, (∃ v ∈ t.vertices, v.id = id) ↔ db.Reachable root id := fun id =>
    List.mem_map.symm.trans (ht.mem_iff id)
  refine reachablePart_eq (fun id => ?_) fun id => ?_
  · simp only [List.any_eq_true, beq_iff_eq]
    exact hmem id
  · rw [← hmem, hasRouter_iff]
    simp only [List.any_eq_true, Bool.and_eq_true, beq_iff_eq]
    refine ⟨fun h => ?_, fun h => ?_⟩
    · obtain ⟨v, hv, hk, rfl⟩ := h
      obtain ⟨n, hn, hnk⟩ := ht.node v hv
      exact ⟨⟨v, hv, rfl⟩, n, hn, hnk ▸ hk⟩
    · obtain ⟨⟨v, hv, rfl⟩, n, hn, hk⟩ := h
      obtain ⟨m, hm, hmk⟩ := ht.node v hv
      rw [hn, Option.some.injEq] at hm
      exact ⟨v, hv, hmk ▸ hm ▸ hk, rfl⟩

/-- Edges lead from what can be reached to what can be reached. -/
theorem closed_of_reachable (hkeep : ∀ id, keep id = true ↔ db.Reachable root id) : db.Closed keep := by
  intro id n hid hn e he
  obtain ⟨cost, hp⟩ := (hkeep id).1 hid
  exact (hkeep e.target).2 ⟨_, .step hp hn he⟩

end ReachablePart

/-- **What a root cannot reach has no influence.** On the part of the database that it reaches, its
    tree is the same, handle by handle, and so are the outcome and the routes, in the same order. -/
theorem calculate_reachablePart (db : Database) (resolve : Resolver) {root : Address} {n : Node}
    (hn : db.get? root = some n) (hk : n.kind.isRouter = true) :
    (∃ t, (db.shortestPathTree resolve root).1 = .ok t ∧
      ((db.reachablePart root).shortestPathTree resolve root).1 = .ok t) ∧
      ∃ o routes, (db.calculate resolve root).outcome = .ok o ∧ (db.calculate resolve root).routes = routes ∧
        ((db.reachablePart root).calculate resolve root).outcome = .ok o ∧
        ((db.reachablePart root).calculate resolve root).routes = routes := by
  obtain ⟨t, db', hrun, ht, _⟩ := db.exists_explored resolve hn hk
  obtain ⟨o, routes, db'', hcalc, _⟩ := exists_calculate_ok (hasRouter_iff.2 ⟨n, hn, hk⟩) resolve
  classical
  have hkeep : ∀ id, decide (db.Reachable root id) = true ↔ db.Reachable root id := fun _ => decide_eq_true_iff
  have hroot : decide (db.Reachable root root) = true := (hkeep root).2 ⟨0, .start (by rw [hn]; rfl)⟩
  have hc : db.Closed fun id => decide (db.Reachable root id) := closed_of_reachable hkeep
  rw [reachablePart_eq hkeep fun _ => decide_eq_true_iff, shortestPathTree_restrict hc hn hk hroot, hrun]
  obtain ⟨houtcome, hroutes⟩ := calculate_restrict hc hn hk hroot
    fun id hreach hrouter => decide_eq_true (And.intro hreach hrouter)
  rw [hcalc] at houtcome hroutes
  exact ⟨⟨t, rfl, rfl⟩, o, routes, by rw [hcalc], by rw [hcalc], houtcome, hroutes⟩

/-- A router on a wire and on a network, and what it does not reach: a router with a link to it, two
    routers that reach each other only, and a router and a network that claim addresses of its own.
    Routers on both sides announce externals, and so does the network. -/
def shore : Database :=
  .ofList [
    .node ⟨.ofOctets 10 0 0 1, .router [⟨.pointToPoint, .ofOctets 10 0 0 2, .ofOctets 10 1 1 1, 1⟩,
      ⟨.transitNetwork, .ofOctets 10 9 0 1, .ofOctets 10 9 0 1, 4⟩,
      ⟨.pointToPoint, .ofOctets 10 0 0 99, .ofOctets 10 1 9 1, 1⟩], .inTree⟩,
    .node ⟨.ofOctets 10 0 0 2, .router [⟨.pointToPoint, .ofOctets 10 0 0 1, .ofOctets 10 1 1 2, 1⟩], .notExplored⟩,
    .node ⟨.ofOctets 10 0 0 3, .router [⟨.transitNetwork, .ofOctets 10 9 0 1, .ofOctets 10 9 0 3, 1⟩], .candidate⟩,
    .node ⟨.ofOctets 10 0 0 4, .router [⟨.pointToPoint, .ofOctets 10 0 0 1, .ofOctets 10 1 1 1, 1⟩], .inTree⟩,
    .node ⟨.ofOctets 10 0 0 5, .router [⟨.pointToPoint, .ofOctets 10 0 0 6, .ofOctets 10 1 5 1, 1⟩], .notExplored⟩,
    .node ⟨.ofOctets 10 0 0 6, .router [⟨.pointToPoint, .ofOctets 10 0 0 5, .ofOctets 10 1 5 2, 1⟩], .notExplored⟩,
    .node ⟨.ofOctets 10 0 0 7, .router [⟨.transitNetwork, .ofOctets 10 9 0 7, .ofOctets 10 9 0 3, 1⟩], .notExplored⟩,
    .node ⟨.ofOctets 10 9 0 1, .network (.ofOctets 255 255 255 0) [.ofOctets 10 9 0 1, .ofOctets 10 9 0 3],
      .notExplored⟩,
    .node ⟨.ofOctets 10 9 0 7, .network (.ofOctets 255 255 255 0) [.ofOctets 10 9 0 1], .notExplored⟩,
    .external ⟨.ofOctets 172 16 0 0, .ofOctets 255 240 0 0, .ofOctets 10 0 0 3, .notExplored⟩,
    .external ⟨.ofOctets 172 32 0 0, .ofOctets 255 240 0 0, .ofOctets 10 0 0 4, .inTree⟩,
    .external ⟨.ofOctets 172 48 0 0, .ofOctets 255 240 0 0, .ofOctets 10 9 0 1, .notExplored⟩]

/-- The interfaces of the router. -/
def shoreInterfaces : InterfaceTable :=
  .ofList [⟨1, .ofOctets 10 1 1 1, .ofOctets 255 255 255 252⟩, ⟨2, .ofOctets 10 9 0 1, .ofOctets 255 255 255 0⟩]

/-- The vertices of its tree, with a mark for the routers among them. -/
def shoreVertices : List (Address × Bool) :=
  [(.ofOctets 10 0 0 1, true), (.ofOctets 10 0 0 2, true), (.ofOctets 10 9 0 1, false), (.ofOctets 10 0 0 3, true)]

/-- Four nodes and one external are left, and they make the same three routes. -/
theorem shore_reachablePart :
    ((shore.reachablePart (.ofOctets 10 0 0 1)).nodes.map (·.id) =
        [.ofOctets 10 0 0 1, .ofOctets 10 0 0 2, .ofOctets 10 0 0 3, .ofOctets 10 9 0 1]) ∧
      ((shore.reachablePart (.ofOctets 10 0 0 1)).externals.map (·.id) = [.ofOctets 172 16 0 0]) ∧
      ∃ n, shore.get? (.ofOctets 10 0 0 1) = some n ∧ n.kind.isRouter = true ∧
        ∃ t, (shore.shortestPathTree shoreInterfaces.resolve (.ofOctets 10 0 0 1)).1 = .ok t ∧
          ((shore.reachablePart (.ofOctets 10 0 0 1)).shortestPathTree shoreInterfaces.resolve
            (.ofOctets 10 0 0 1)).1 = .ok t ∧
          ((shore.reachablePart (.ofOctets 10 0 0 1)).calculate shoreInterfaces.resolve
            (.ofOctets 10 0 0 1)).routes =
            [.host (.ofOctets 10 1 1 2) (.ofOctets 10 1 1 2) 1 1,
              .network (.ofOctets 10 9 0 0) (.ofOctets 255 255 255 0) .unspecified 2 4,
              .external (.ofOctets 172 16 0 0) (.ofOctets 255 240 0 0) (.ofOctets 10 9 0 3) 2 4] := by
  obtain ⟨n, hn, hk⟩ : ∃ n, shore.get? (.ofOctets 10 0 0 1) = some n ∧ n.kind.isRouter = true := ⟨_, rfl, rfl⟩
  have hvertices : (shore.shortestPathTree shoreInterfaces.resolve (.ofOctets 10 0 0 1)).1.toOption.map
      (fun t => t.vertices.map fun v => (v.id, v.kind.isRouter)) = some shoreVertices := by decide +kernel
  obtain ⟨t, db', hrun, ht, _⟩ := shore.exists_explored shoreInterfaces.resolve hn hk
  rw [hrun] at hvertices
  have hvertices : t.vertices.map (fun v => (v.id, v.kind.isRouter)) = shoreVertices := Option.some.inj hvertices
  have hpart : shore.reachablePart (.ofOctets 10 0 0 1) =
      shore.restrict (fun id => shoreVertices.any (·.1 == id)) fun id => shoreVertices.any fun v => v.2 && v.1 == id := by
    rw [reachablePart_eq_of_isShortest ht.isShortest, ← hvertices]
    simp only [List.any_map]
    rfl
  obtain ⟨⟨u, hu, hupart⟩, o, routes, _, hroutes, _, hrest⟩ :=
    shore.calculate_reachablePart shoreInterfaces.resolve hn hk
  refine ⟨by rw [hpart]; decide +kernel, by rw [hpart]; decide +kernel, n, hn, hk, u, hu, hupart, ?_⟩
  rw [hrest, ← hroutes]
  decide +kernel

end Database

end LinkState
