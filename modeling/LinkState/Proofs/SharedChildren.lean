import LinkState.Proofs.RecursiveOrder
import LinkState.Proofs.TreeStructure

/-!
# The depth-first walk and shared children

Equal-cost ways make a vertex the child of several. The depth-first walk marks a vertex when it is put
on the stack, not when it is visited, so it belongs to that of its parents which is visited first
(`adopted`), and is visited among the children of that parent, whatever leads to it in between. The walk
is the recursive order of these adoptions. It is that of all children only if nothing comes between a
vertex and a child of it but what its earlier children lead to.

* `Walks.preOrder_adopted`: what a walk visits is the recursive order of the adopted children;
* `unbroken_of_unrelated`: where no parent of a vertex descends from another, nothing comes between;
* `Tree.WellBuilt.exists_ordersShared`: so the depth-first order of a shortest-path tree is the
  recursive one exactly if it is unbroken.
-/

namespace LinkState

/-! ## 1. Adopted children -/

/-- The children of a vertex that are not children of a vertex visited before. The root is the child of
    none. -/
def adopted (children : Handle → List Handle) (order : List Handle) (p : Handle) : List Handle :=
  (children p).filter fun c => decide (c ≠ Tree.root ∧ ∀ q ∈ order.takeWhile (· != p), c ∉ children q)

section Adopted

variable {children : Handle → List Handle} {order front back : List Handle} {p c : Handle}

/-- What stands in front of a handle in an order that has it once. -/
theorem takeWhile_of_nodup (hn : order.Nodup) (ho : order = front ++ p :: back) :
    order.takeWhile (· != p) = front := by
  subst ho
  have hp : p ∉ front := not_mem_of_nodup_middle hn
  have hall : ∀ q ∈ front, (q != p) = true := fun q hq => bne_iff_ne.2 fun he => hp (he ▸ hq)
  rw [List.takeWhile_append_of_pos hall, List.takeWhile_cons_of_neg (by simp), List.append_nil]

theorem mem_adopted (hn : order.Nodup) (ho : order = front ++ p :: back) :
    c ∈ adopted children order p ↔ c ∈ children p ∧ c ≠ Tree.root ∧ ∀ q ∈ front, c ∉ children q := by
  rw [adopted, takeWhile_of_nodup hn ho, List.mem_filter, decide_eq_true_iff]

theorem mem_of_mem_adopted (hc : c ∈ adopted children order p) : c ∈ children p := List.mem_of_mem_filter hc

end Adopted

/-- Without repetition a recursive order passes over nothing. -/
theorem PreOrder.visits {children : Handle → List Handle} {hs order : List Handle} (ho : PreOrder children hs order) :
    ∀ {seen : List Handle}, (seen ++ order).Nodup → Visits children seen hs order := by
  induction ho with
  | nil => exact fun _ => .nil
  | @visit h hs below beside _ _ ihbelow ihbeside =>
    intro seen hn
    refine .visit (not_mem_of_nodup_middle hn) (ihbelow ?_) (ihbeside ?_)
    · rw [← List.append_cons]
      exact hn.sublist (List.Sublist.append_left (List.Sublist.cons_cons h (List.sublist_append_left _ _)) _)
    · rwa [List.append_assoc]

/-! ## 2. What a walk visits -/

namespace Tree

variable {t t₁ t' : Tree} {stack rest order : List Handle}

/-- **A walk visits its stack in the recursive order of the adopted children**, if what is marked are the
    root and the children of what was visited before. -/
theorem Walks.preOrder_adopted (hw : Walks t stack order t') : t.InRange → (∀ p, (t.childrenOf p).Nodup) →
    ∀ {done : List Handle}, (∀ c, t.Marked c ↔ c = root ∨ ∃ q ∈ done, c ∈ t.childrenOf q) → (done ++ order).Nodup →
      PreOrder (adopted t.childrenOf (done ++ order)) stack order := by
  induction hw with
  | nil => exact fun _ _ _ _ _ => .nil
  | @visit t t₁ t' h rest stack order v hv hs _ ih =>
    intro hr hnd done hmarked hn
    obtain ⟨_, _, hsame, _, _, hmark⟩ := exists_pushed hr hv hs
    have hchildren := childrenOf_eq_of_clearProcessed hsame
    have hstack : stack = adopted t.childrenOf (done ++ h :: order) h ++ rest := by
      have hcs := childrenOf_of_vertex? hv
      rw [stackChildren_eq_filter hs (List.nodup_reverse.2 (hcs ▸ hnd h)), List.filter_reverse, List.reverse_reverse,
        ← hcs, adopted, takeWhile_of_nodup hn rfl]
      refine congrArg (· ++ rest) (List.filter_congr fun c _ => ?_)
      rw [decide_eq_decide, hmarked]
      simp [not_or]
    have hmarked₁ : ∀ c, t₁.Marked c ↔ c = root ∨ ∃ q ∈ done ++ [h], c ∈ t₁.childrenOf q := fun c => by
      rw [hmark, hmarked, hchildren]
      simp only [List.mem_append, List.mem_singleton, or_and_right, exists_or, exists_eq_left, or_assoc]
    have ho := ih (inRange_of_clearProcessed hsame hr) (hchildren ▸ hnd) hmarked₁ (by rwa [← List.append_cons])
    rw [hchildren, ← List.append_cons, hstack] at ho
    obtain ⟨below, beside, rfl, hbelow, hbeside⟩ := ho.exists_of_append
    exact .visit hbelow hbeside

/-- **The depth-first walk is the recursive order of the adopted children.** -/
theorem preOrder_adopted (hr : t.InRange) (hroot : root < t.size) (hnd : ∀ p, (t.childrenOf p).Nodup)
    (hwalk : t.depthFirst = (some order, t')) : PreOrder (adopted t.childrenOf order) [root] order := by
  obtain ⟨order₁, t₁, hwalk₁, hw⟩ := exists_walked_depthFirst hr hroot
  rw [hwalk, Prod.mk.injEq, Option.some.injEq] at hwalk₁
  obtain ⟨rfl, rfl⟩ := hwalk₁
  have hsame := t.clearProcessed_start
  have hchildren := childrenOf_eq_of_clearProcessed hsame
  have hmarked : ∀ c, (t.clearProcessed.mark root).Marked c ↔
      c = root ∨ ∃ q ∈ ([] : List Handle), c ∈ (t.clearProcessed.mark root).childrenOf q := fun c => by
    rw [marked_start hroot]
    simp
  have hr₀ := inRange_of_clearProcessed hsame hr
  have ho := (walks_of_walk hwalk).preOrder_adopted hr₀ (hchildren ▸ hnd) hmarked hw.nodup
  rwa [hchildren] at ho

end Tree

/-! ## 3. Parents that do not descend from one another -/

section Unrelated

variable {children : Handle → List Handle} {order : List Handle}

/-- No parent of a vertex descends from another. -/
def Unrelated (children : Handle → List Handle) : Prop :=
  ∀ c p q, c ∈ children p → c ∈ children q → p ≠ q → ¬ Descends children p q

/-- A child that was not adopted has been adopted by a vertex in front. -/
theorem exists_adopter (hn : order.Nodup) {front back : List Handle} {p c : Handle} (ho : order = front ++ p :: back)
    (hc : c ∈ children p) (hroot : c ≠ Tree.root) (hnot : c ∉ adopted children order p) :
    ∃ q ∈ front, c ∈ adopted children order q := by
  have hex : ∃ q ∈ front, decide (c ∈ children q) = true := by
    by_contra hnone
    refine hnot ((mem_adopted hn ho).2 ⟨hc, hroot, fun q hq hcq => hnone ⟨q, hq, decide_eq_true hcq⟩⟩)
  obtain ⟨q, hq⟩ := Option.isSome_iff_exists.1 (List.find?_isSome.2 hex)
  obtain ⟨hcq, early, late, hfront, hearly⟩ := List.find?_eq_some_iff_append.1 hq
  have hsplit : order = early ++ q :: (late ++ p :: back) := by
    rw [ho, hfront, List.append_assoc]
    rfl
  exact ⟨q, hfront ▸ List.mem_append_right _ List.mem_cons_self,
    (mem_adopted hn hsplit).2 ⟨of_decide_eq_true hcq, hroot, fun x hx => by simpa using hearly x hx⟩⟩

/-- **Where no parent descends from another**, the recursive order of the adopted children is unbroken. -/
theorem unbroken_of_unrelated (hun : Unrelated children) (hroot : ∀ p, Tree.root ∉ children p) (hn : order.Nodup)
    (ho : PreOrder (adopted children order) [Tree.root] order) : Unbroken children order := by
  have hvisits : Visits (adopted children order) [] [Tree.root] order := ho.visits hn
  have hadopted := hvisits.unbroken
  have hmono : ∀ {a h}, Descends (adopted children order) a h → Descends children a h :=
    fun hd => hd.mono fun _ _ => mem_of_mem_adopted
  intro p front c back hchildren b hs
  have hc : c ∈ children p := hchildren ▸ List.mem_append_right _ List.mem_cons_self
  by_cases hmem : c ∈ adopted children order p
  · -- the earlier children that were adopted are among the earlier children
    obtain ⟨d, hd, hdb⟩ := hadopted p _ c _ (by
      rw [adopted, hchildren, List.filter_append, List.filter_cons_of_pos]
      exact (List.mem_filter.1 hmem).2) b hs
    exact ⟨d, List.mem_of_mem_filter hd, hmono hdb⟩
  · -- the child belongs to a vertex in front, and its parent would descend from that
    obtain ⟨before, behind, hsplit⟩ := List.append_of_mem (hs.subset List.mem_cons_self)
    obtain ⟨q, hq, hcq⟩ := exists_adopter hn hsplit hc (fun he => hroot p (he ▸ hc)) hmem
    have hbehind := sublist_of_head_not_mem (hsplit ▸ hs) (not_mem_of_nodup_middle (hsplit ▸ hn))
    have hcbehind : c ∈ behind :=
      (List.cons_sublist_cons.1 hbehind).subset (List.mem_cons_of_mem _ List.mem_cons_self)
    have hqp := hadopted.descends hcq (hsplit ▸ sublist_around hq hcbehind)
    have hne : q ≠ p := fun he => hmem (he ▸ hcq)
    exact absurd (hmono hqp) (hun c q p (mem_of_mem_adopted hcq) hc hne)

end Unrelated

/-! ## 4. The walk of a shortest-path tree -/

namespace Tree

/-- **What the depth-first order of a tree is**: the recursive order of the adopted children, and that of
    all children exactly if nothing comes between a vertex and its children. -/
structure OrdersShared (t : Tree) (order : List Handle) : Prop where
  preOrder : PreOrder (adopted t.childrenOf order) [root] order
  existsUnique : ∃! recursive, Visits t.childrenOf [] [root] recursive
  visits_iff : Visits t.childrenOf [] [root] order ↔ Unbroken t.childrenOf order
  of_unrelated : Unrelated t.childrenOf → Visits t.childrenOf [] [root] order

theorem childrenOf_eq_getD (t : Tree) : t.childrenOf = fun h => ((t.vertices.map (·.children))[h]?).getD [] := by
  funext h
  rw [List.getElem?_map]
  rfl

namespace WellBuilt

variable {t : Tree} {id : Address} {settled : List Handle} (hb : t.WellBuilt id settled)

include hb

theorem lt_size {p c : Handle} (hc : c ∈ t.childrenOf p) : c < t.size := by
  obtain ⟨w, hw, _⟩ := mem_parentsOf.1 ((hb.mem_iff p c).2 hc)
  exact vertex?_lt hw

theorem root_not_mem_childrenOf (p : Handle) : Tree.root ∉ t.childrenOf p := by
  intro hc
  obtain ⟨v, hv, _, _, _, hnil⟩ := hb.root
  have hp := (hb.mem_iff p Tree.root).2 hc
  rw [parentsOf_of_vertex? hv, hnil] at hp
  cases hp

/-- What descends from a vertex is settled after it. -/
theorem before_of_descends {a h : Handle} (hd : Descends t.childrenOf a h) : a = h ∨ Before settled a h := by
  induction hd with
  | refl => exact .inl rfl
  | @child p c _ hc ih =>
    have hpc := hb.earlier p c ((hb.mem_iff p c).2 hc)
    exact .inr (ih.elim (fun he => he ▸ hpc) fun hap => hap.trans hpc)

theorem acyclic_childrenOf : Acyclic t.childrenOf := by
  intro p c hc hd
  have hpc := hb.earlier p c ((hb.mem_iff p c).2 hc)
  rcases hb.before_of_descends hd with rfl | hcp
  · exact Before.irrefl hpc
  · exact Before.irrefl (hpc.trans hcp)

/-- **The depth-first order of a well-built tree.** -/
theorem exists_ordersShared : ∃ order t', t.depthFirst = (some order, t') ∧ t.OrdersShared order := by
  obtain ⟨v, hv, _⟩ := hb.root
  have hroot : Tree.root < t.size := vertex?_lt hv
  have hr : t.InRange := fun p c hc => hb.lt_size hc
  obtain ⟨order, t', hwalk, _, hn, hmem⟩ := exists_depthFirst hr hroot
  have hs : Spans t.childrenOf Tree.root order := ⟨head?_walk hwalk, hn, hmem⟩
  have hpre := preOrder_adopted hr hroot hb.nodup_children hwalk
  have hiff := visits_iff_unbroken hb.acyclic_childrenOf hr hroot hs
  obtain ⟨recursive, hrecursive⟩ := exists_visits hr [] [Tree.root] (List.forall_mem_singleton.2 hroot)
  exact ⟨order, t', hwalk, hpre, ⟨recursive, hrecursive, fun _ hv => hv.unique hrecursive⟩, hiff,
    fun hun => hiff.2 (unbroken_of_unrelated hun hb.root_not_mem_childrenOf hn hpre)⟩

end WellBuilt

end Tree

namespace Database

/-- **The depth-first order with shared children**, for the tree of every router. -/
theorem depthFirst_sharedChildren (db : Database) (resolve : Resolver) {root : Address} {n : Node}
    (hn : db.get? root = some n) (hk : n.kind.isRouter = true) :
    ∃ t db', db.shortestPathTree resolve root = (.ok t, db') ∧
      ∃ order t', t.depthFirst = (some order, t') ∧ t.OrdersShared order := by
  obtain ⟨t, db', hrun, ht, _⟩ := db.exists_explored resolve hn hk
  have hwell := ht.wellBuilt (linked_shortestPathTree hrun) (built_shortestPathTree hrun)
  exact ⟨t, db', hrun, hwell.exists_ordersShared⟩

/-- Two routers at the same distance from the root, and a third behind both of them. -/
def diamond : Database :=
  .ofList [
    .node ⟨.ofOctets 10 0 0 1, .router [⟨.pointToPoint, .ofOctets 10 0 0 2, .ofOctets 10 1 2 1, 1⟩,
      ⟨.pointToPoint, .ofOctets 10 0 0 3, .ofOctets 10 1 3 1, 1⟩], .notExplored⟩,
    .node ⟨.ofOctets 10 0 0 2, .router [⟨.pointToPoint, .ofOctets 10 0 0 1, .ofOctets 10 1 2 2, 1⟩,
      ⟨.pointToPoint, .ofOctets 10 0 0 4, .ofOctets 10 2 4 2, 1⟩], .notExplored⟩,
    .node ⟨.ofOctets 10 0 0 3, .router [⟨.pointToPoint, .ofOctets 10 0 0 1, .ofOctets 10 1 3 3, 1⟩,
      ⟨.pointToPoint, .ofOctets 10 0 0 4, .ofOctets 10 3 4 3, 1⟩], .notExplored⟩,
    .node ⟨.ofOctets 10 0 0 4, .router [⟨.pointToPoint, .ofOctets 10 0 0 2, .ofOctets 10 2 4 4, 1⟩,
      ⟨.pointToPoint, .ofOctets 10 0 0 3, .ofOctets 10 3 4 4, 1⟩], .notExplored⟩]

/-- The third is visited below the first of them, and nothing comes between. -/
theorem diamond_ordersShared :
    ∃ n, diamond.get? (.ofOctets 10 0 0 1) = some n ∧ n.kind.isRouter = true ∧
      ∃ t db', diamond.shortestPathTree InterfaceTable.empty.resolve (.ofOctets 10 0 0 1) = (.ok t, db') ∧
        t.vertices.map (·.children) = [[1, 2], [3], [3], []] ∧
        ∃ t', t.depthFirst = (some [0, 1, 3, 2], t') ∧ t.OrdersShared [0, 1, 3, 2] ∧
          Visits t.childrenOf [] [Tree.root] [0, 1, 3, 2] ∧ Unbroken t.childrenOf [0, 1, 3, 2] := by
  obtain ⟨n, hn, hk⟩ : ∃ n, diamond.get? (.ofOctets 10 0 0 1) = some n ∧ n.kind.isRouter = true := ⟨_, rfl, rfl⟩
  have hvertices : (diamond.shortestPathTree InterfaceTable.empty.resolve (.ofOctets 10 0 0 1)).1.toOption.map
      (fun t => (t.vertices.map (·.children), t.depthFirst.1)) =
        some ([[1, 2], [3], [3], []], some [0, 1, 3, 2]) := by
    decide +kernel
  obtain ⟨t, db', hrun, order, t', hwalk, horder⟩ :=
    diamond.depthFirst_sharedChildren InterfaceTable.empty.resolve hn hk
  rw [hrun] at hvertices
  obtain ⟨hchildren, hfirst⟩ := Prod.mk.inj (Option.some.inj hvertices)
  rw [hwalk, Option.some.injEq] at hfirst
  subst hfirst
  have hthree : Visits t.childrenOf [0, 1] (t.childrenOf 1) ([3] ++ []) := by
    rw [t.childrenOf_eq_getD, hchildren]
    exact .visit (by decide) .nil .nil
  have htwo : Visits t.childrenOf [0, 1, 3] [2] ([2] ++ []) := by
    rw [t.childrenOf_eq_getD, hchildren]
    exact .visit (by decide) (.met (by decide) .nil) .nil
  have hbelow : Visits t.childrenOf [0] (t.childrenOf 0) ([1, 3] ++ [2]) := by
    have hroot : t.childrenOf 0 = [1, 2] := by rw [t.childrenOf_eq_getD, hchildren]; rfl
    rw [hroot]
    exact .visit (by decide) hthree htwo
  have hvisits : Visits t.childrenOf [] [Tree.root] ([0, 1, 3, 2] ++ []) := .visit (by decide) hbelow .nil
  exact ⟨n, hn, hk, t, db', hrun, hchildren, t', hwalk, horder, hvisits, horder.visits_iff.1 hvisits⟩

/-- A router at cost 2 that the root reaches by its own link and over one of two neighbours at cost 1. -/
def shortcut : Database :=
  .ofList [
    .node ⟨.ofOctets 10 0 0 1, .router [⟨.pointToPoint, .ofOctets 10 0 0 2, .ofOctets 10 1 2 1, 1⟩,
      ⟨.pointToPoint, .ofOctets 10 0 0 3, .ofOctets 10 1 3 1, 1⟩,
      ⟨.pointToPoint, .ofOctets 10 0 0 4, .ofOctets 10 1 4 1, 2⟩], .notExplored⟩,
    .node ⟨.ofOctets 10 0 0 2, .router [⟨.pointToPoint, .ofOctets 10 0 0 1, .ofOctets 10 1 2 2, 1⟩,
      ⟨.pointToPoint, .ofOctets 10 0 0 4, .ofOctets 10 2 4 2, 1⟩], .notExplored⟩,
    .node ⟨.ofOctets 10 0 0 3, .router [⟨.pointToPoint, .ofOctets 10 0 0 1, .ofOctets 10 1 3 3, 1⟩], .notExplored⟩,
    .node ⟨.ofOctets 10 0 0 4, .router [⟨.pointToPoint, .ofOctets 10 0 0 1, .ofOctets 10 1 4 4, 2⟩,
      ⟨.pointToPoint, .ofOctets 10 0 0 2, .ofOctets 10 2 4 4, 1⟩], .notExplored⟩]

/-- The walk visits it last, as a child of the root; the recursive order visits it below the neighbour,
    and the other neighbour after it. -/
theorem shortcut_breaksOrder :
    ∃ t db', shortcut.shortestPathTree InterfaceTable.empty.resolve (.ofOctets 10 0 0 1) = (.ok t, db') ∧
      ∃ t', t.depthFirst = (some [0, 1, 2, 3], t') ∧ Visits t.childrenOf [] [Tree.root] [0, 1, 3, 2] ∧
        ¬ Visits t.childrenOf [] [Tree.root] [0, 1, 2, 3] := by
  obtain ⟨n, hn, hk⟩ : ∃ n, shortcut.get? (.ofOctets 10 0 0 1) = some n ∧ n.kind.isRouter = true := ⟨_, rfl, rfl⟩
  have hvertices : (shortcut.shortestPathTree InterfaceTable.empty.resolve (.ofOctets 10 0 0 1)).1.toOption.map
      (fun t => (t.vertices.map (·.children), t.depthFirst.1)) =
        some ([[1, 2, 3], [3], [], []], some [0, 1, 2, 3]) := by
    decide +kernel
  obtain ⟨t, db', hrun, _⟩ := shortcut.exists_explored InterfaceTable.empty.resolve hn hk
  rw [hrun] at hvertices
  obtain ⟨hchildren, hwalk⟩ := Prod.mk.inj (Option.some.inj hvertices)
  have hthree : Visits t.childrenOf [0, 1] (t.childrenOf 1) ([3] ++ []) := by
    rw [t.childrenOf_eq_getD, hchildren]
    exact .visit (by decide) .nil .nil
  have htwo : Visits t.childrenOf [0, 1, 3] [2, 3] ([2] ++ []) := by
    rw [t.childrenOf_eq_getD, hchildren]
    exact .visit (by decide) .nil (.met (by decide) .nil)
  have hbelow : Visits t.childrenOf [0] (t.childrenOf 0) ([1, 3] ++ [2]) := by
    have hroot : t.childrenOf 0 = [1, 2, 3] := by rw [t.childrenOf_eq_getD, hchildren]; rfl
    rw [hroot]
    exact .visit (by decide) hthree htwo
  have hrecursive : Visits t.childrenOf [] [Tree.root] ([0, 1, 3, 2] ++ []) := .visit (by decide) hbelow .nil
  exact ⟨t, db', hrun, t.depthFirst.2, Prod.ext hwalk rfl, hrecursive,
    fun hv => absurd (hv.unique hrecursive) (by decide)⟩

end Database

end LinkState
