import LinkState.Proofs.DepthFirst
import LinkState.Proofs.EqualCost

/-!
# Parents and children of a run

A run records parents while it follows edges and children when it settles: a vertex becomes a child
of the parents that it has at that moment. A settled vertex keeps its parents, so the two records
agree at every moment (`Linked`): the children of a vertex are the settled vertices that have it as
a parent.

* `childrenOf_relax`: following edges leaves all children as they are;
* `Linked.addToParents`: settling adds the vertex to the children of its parents;
* `Explored.descends`: at the end every vertex descends from the root, since it has a parent that was
  settled earlier, so a depth-first walk visits every vertex once (`Explored.exists_depthFirst`).
-/

namespace LinkState

namespace Tree

/-- **Children and parents agree** for the vertices settled so far. -/
structure Linked (t : Tree) (order : List Handle) : Prop where
  mem_iff : ∀ p c, c ∈ t.childrenOf p ↔ c ∈ order ∧ ∃ w, t.label? c = some w ∧ p ∈ w.parents

/-! ## 1. Children in a changed tree -/

/-- A new vertex has no children. -/
theorem childrenOf_insert (t : Tree) {v : Vertex} (hv : v.children = []) : (t.insert v).childrenOf = t.childrenOf := by
  funext h
  rw [childrenOf, childrenOf, vertex?_insert]
  split
  · rename_i he
    have hnone : t.vertex? h = none := he ▸ List.getElem?_eq_none (Nat.le_refl _)
    rw [hnone]
    exact hv
  · rfl

theorem childrenOf_modify (t : Tree) (k h : Handle) (f : Vertex → Vertex) :
    (t.modify k f).childrenOf h =
      if h = k then ((t.vertex? h).map fun v => (f v).children).getD [] else t.childrenOf h := by
  rw [childrenOf, vertex?_modify]
  by_cases hk : h = k
  · rw [if_pos hk.symm, if_pos hk, Option.map_map]
    rfl
  · rw [if_neg fun e => hk e.symm, if_neg hk]
    rfl

/-- A change that keeps the children of a vertex keeps those of all. -/
theorem childrenOf_modify_of_eq (t : Tree) (k : Handle) {f : Vertex → Vertex} (hf : ∀ v, (f v).children = v.children) :
    (t.modify k f).childrenOf = t.childrenOf := by
  funext h
  rw [childrenOf_modify]
  split
  · exact congrArg (fun g => Option.getD (Option.map g (t.vertex? h)) []) (funext hf)
  · rfl

theorem childrenOf_addChild {t : Tree} {p : Handle} (hp : p < t.size) (c h : Handle) :
    (t.modify p (·.addChild c)).childrenOf h =
      if h = p then Distinct.add (t.childrenOf h) c else t.childrenOf h := by
  rw [childrenOf_modify]
  refine ite_congr rfl (fun hh => ?_) fun _ => rfl
  obtain ⟨v, hv⟩ := exists_vertex? hp
  rw [hh, childrenOf, hv]
  rfl

/-- Every parent in turn gets the child, and nothing else changes. -/
theorem mem_childrenOf_addChildTo (c d h : Handle) : ∀ {ps : List Handle} {t : Tree}, (∀ p ∈ ps, p < t.size) →
    (d ∈ (addChildTo c ps t).2.childrenOf h ↔ d ∈ t.childrenOf h ∨ d = c ∧ h ∈ ps)
  | [], t, _ => by simp [addChildTo]
  | p :: ps, t, hps => by
    have hp := hps p List.mem_cons_self
    obtain ⟨v, hv⟩ := exists_vertex? hp
    have hrest : ∀ q ∈ ps, q < (t.modify p (·.addChild c)).size := fun q hq => by
      rw [size_modify]
      exact hps q (List.mem_cons_of_mem _ hq)
    rw [addChildTo, hv]
    dsimp only
    rw [mem_childrenOf_addChildTo c d h hrest, childrenOf_addChild hp, List.mem_cons]
    by_cases hh : h = p
    · rw [if_pos hh, Distinct.mem_add, or_assoc]
      refine or_congr_right ⟨fun hx => ⟨hx.elim id And.left, .inl hh⟩, fun hx => .inl hx.1⟩
    · rw [if_neg hh, or_iff_right hh]

theorem nodup_childrenOf_addChildTo (c h : Handle) : ∀ {ps : List Handle} {t : Tree}, (t.childrenOf h).Nodup →
    ((addChildTo c ps t).2.childrenOf h).Nodup
  | [], t, hn => hn
  | p :: ps, t, hn => by
    unfold addChildTo
    split
    · exact hn
    · rename_i v hv
      refine nodup_childrenOf_addChildTo c h ?_
      rw [childrenOf_addChild (vertex?_lt hv)]
      split
      · exact Distinct.nodup_add hn
      · exact hn

/-! ## 2. A step of a run -/

variable {order : List Handle}

/-- **Settling** a vertex makes it a child of its parents, which all are in the arena. -/
theorem Linked.addToParents {t : Tree} (hl : t.Linked order) {c : Handle} {w : Vertex} (hw : t.label? c = some w)
    (hps : ∀ p ∈ w.parents, p < t.size) : (t.addToParents c).2.Linked (order ++ [c]) := by
  obtain ⟨v, hv, rfl⟩ := label?_eq_some.1 hw
  have hadd : (t.addToParents c).2 = (addChildTo c v.label.parents t).2 := by
    rw [Tree.addToParents, hv]
    rfl
  refine ⟨fun p d => ?_⟩
  rw [label?_addToParents, hadd, mem_childrenOf_addChildTo c d p hps, hl.mem_iff, List.mem_append,
    List.mem_singleton, or_and_right]
  refine or_congr_right (and_congr_right fun hdc => ?_)
  rw [hdc, hw]
  exact ⟨fun hp => ⟨_, rfl, hp⟩, fun hx => by
    obtain ⟨x, hx, hp⟩ := hx
    rw [Option.some.injEq] at hx
    exact hx ▸ hp⟩

/-- What keeps the children and the settled labels keeps the tree linked. -/
theorem Linked.congr {t t' : Tree} (hl : t.Linked order) (hc : t'.childrenOf = t.childrenOf)
    (hlabel : ∀ k ∈ order, t'.label? k = t.label? k) : t'.Linked order where
  mem_iff p c := by
    rw [hc, hl.mem_iff]
    exact and_congr_right fun hco => by rw [hlabel c hco]

end Tree

namespace Exploration

theorem childrenOf_relaxEdge (resolve : Resolver) (s : Exploration) (e : Edge) :
    (s.relaxEdge resolve e).tree.childrenOf = s.tree.childrenOf := by
  unfold relaxEdge
  split
  · dsimp only
    split
    · rfl
    · exact s.tree.childrenOf_insert rfl
    · split
      · unfold reach
        split
        · rfl
        · split
          · rfl
          · split
            · exact s.tree.childrenOf_modify_of_eq _ fun _ => rfl
            · exact s.tree.childrenOf_modify_of_eq _ fun _ => rfl
      · rfl
  · rfl

/-- **Following edges leaves all children as they are.** -/
theorem childrenOf_relax (resolve : Resolver) (s : Exploration) :
    (s.relax resolve).tree.childrenOf = s.tree.childrenOf := by
  rw [s.relax_eq resolve]
  generalize s.outgoing = es
  induction es generalizing s with
  | nil => rfl
  | cons e es ih => exact (ih _).trans (s.childrenOf_relaxEdge resolve e)

end Exploration

/-! ## 3. The whole run -/

namespace Explores

variable {db : Database} {resolve : Resolver} {root : Address} {order : List Handle}
  {log : List (Handle × Edge)} {s s' : Exploration}

/-- The parents of a vertex are in the arena. -/
theorem parent_lt (hs : Explores db resolve root order log s) {c : Handle} {w : Vertex}
    (hw : s.tree.label? c = some w) {p : Handle} (hp : p ∈ w.parents) : p < s.tree.size := by
  by_cases hc : c = Tree.root
  · obtain ⟨v, hv, _, _, _, hnil⟩ := hs.labelled.root
    rw [hc, hv, Option.some.injEq] at hw
    rw [← hw, hnil] at hp
    cases hp
  · obtain ⟨o, ho, _, rfl⟩ := ((hs.labelled.sumsUp hw hc).mem_parents p).1 hp
    obtain ⟨x, hx, _⟩ := Tree.label?_eq_some.1 ho.2.2.1
    exact Tree.vertex?_lt hx

theorem linked_next? (hs : Explores db resolve root order log s) (hl : s.tree.Linked order)
    (hn : s.next? = some s') : s'.tree.Linked (order ++ [s'.current]) := by
  obtain ⟨h, q, hp, rfl⟩ := Exploration.next?_eq_some.1 hn
  obtain ⟨_, _, v, hv, _⟩ := hs.queued.settle hp hs.labelled.distinct
  exact hl.addToParents hv fun p hp => hs.parent_lt hv hp

/-- **A run keeps children and parents in agreement.** -/
theorem linked_explore (hs : Explores db resolve root [s.current] log s) (hl : s.tree.Linked [s.current]) :
    (s.explore resolve).tree.Linked ((s.states resolve).map (·.current)) := by
  obtain ⟨last, ⟨⟨_, hlast⟩, hl'⟩, _, hend⟩ := Exploration.explore_induction
    (P := fun order s => (∃ log, Explores db resolve root order log s) ∧ s.tree.Linked order)
    (fun order s s' hP hn => by
      obtain ⟨⟨_, hs⟩, hl⟩ := hP
      obtain ⟨hk, _, hs', _⟩ := hs.relax
      exact ⟨hs.relax_next? hn, hs'.linked_next? (hl.congr (s.childrenOf_relax resolve) hk.label) hn⟩)
    ⟨⟨log, hs⟩, hl⟩
  rw [hend]
  exact hl'.congr (last.childrenOf_relax resolve) hlast.relax.1.label

end Explores

/-- A root alone has no children and no parents. -/
theorem Exploration.linked_start (db : Database) (n : Node) : (start db n).tree.Linked [Tree.root] := by
  have hnil : ∀ p, (start db n).tree.childrenOf p = [] := fun p => by cases p <;> rfl
  refine ⟨fun p c => ?_⟩
  rw [hnil]
  refine iff_of_false List.not_mem_nil fun hx => ?_
  obtain ⟨hc, w, hw, hp⟩ := hx
  rw [List.mem_singleton.1 hc] at hw
  cases hw
  cases hp

/-- **In a shortest-path tree children and parents agree.** -/
theorem Database.linked_shortestPathTree {db db' : Database} {resolve : Resolver} {root : Address} {t : Tree}
    (hrun : db.shortestPathTree resolve root = (.ok t, db')) : t.Linked (db.settleOrder resolve root) := by
  obtain ⟨n, hn, hk⟩ := exists_router_of_run hrun
  have hid : n.id = root := (get?_eq_some_iff.1 hn).2
  subst hid
  have hroot := rootRouter_reset hn hk
  have hlinked := Explores.linked_explore (s := Exploration.start db.reset (n.withStatus .notExplored))
    (Explores.start_reset resolve hn) (Exploration.linked_start _ _)
  rw [shortestPathTree, hroot] at hrun
  cases hrun
  rw [settleOrder, hroot]
  exact hlinked

namespace Explored

variable {db : Database} {resolve : Resolver} {root : Address} {t : Tree} {order : List Handle}

theorem inRange (ht : Explored db resolve root t order) (hl : t.Linked order) : t.InRange :=
  fun p c hc => ht.mem_order.1 ((hl.mem_iff p c).1 hc).1

/-- **Every vertex descends from the root.** -/
theorem descends (ht : Explored db resolve root t order) (hl : t.Linked order) : ∀ h w, t.vertex? h = some w →
    Descends t.childrenOf Tree.root h := by
  refine settleInduction order _ fun h w hw ih => ?_
  by_cases hr : h = Tree.root
  · exact hr ▸ .refl
  · obtain ⟨p, hp⟩ := ht.exists_parent hw hr
    obtain ⟨o, ho, _, rfl⟩ := ht.exists_offer hw hr hp
    refine .child (ih _ _ ho.before ho.source) ((hl.mem_iff _ h).2 ⟨ht.mem_of_vertex? hw, ?_⟩)
    exact ⟨w.label, Tree.label?_of_vertex? hw, hp⟩

/-- **A depth-first walk visits every vertex once** and changes nothing but marks. -/
theorem exists_depthFirst (ht : Explored db resolve root t order) (hl : t.Linked order) :
    ∃ handles t', t.depthFirst = (some handles, t') ∧ t'.clearProcessed = t.clearProcessed ∧
      handles.Perm (List.range t.size) := by
  obtain ⟨v, hv, _⟩ := ht.root
  obtain ⟨handles, t', hwalk, hsame, hnd, hmem⟩ := Tree.exists_depthFirst (ht.inRange hl) (Tree.vertex?_lt hv)
  refine ⟨handles, t', hwalk, hsame, (List.perm_ext_iff_of_nodup hnd List.nodup_range).2 fun h => ?_⟩
  rw [hmem, List.mem_range]
  refine ⟨fun hd => ?_, fun hh => ?_⟩
  · cases hd with
    | refl => exact Tree.vertex?_lt hv
    | child _ hc => exact ht.inRange hl _ _ hc
  · obtain ⟨w, hw⟩ := Tree.exists_vertex? hh
    exact ht.descends hl h w hw

end Explored

end LinkState
