import Mathlib.Data.List.Nodup
import LinkState.Proofs.DepthFirst

/-!
# What a depth-first walk comes past, and in what order

A tree made by hand need not be one: vertices may share children, lead back to the root or to
themselves, and the marks of an earlier walk may still stand. The depth-first walk covers all of it
that the root leads to (`Tree.Covers`), and where the handles do branch like a tree (`Tree.Branches`)
its order is the recursive one (`PreOrder`): a vertex, what is below its first child, what is below
the next, and so on.

* `Walks`: the steps of a walk one by one, which the inductions below follow;
* `Walks.preceded`: whatever is visited stood on the stack or is a child of something visited before;
* `Unmet`: in a tree that branches the walk never meets a marked child, so a visit puts all children on
  the stack, as they are listed;
* `Walks.preOrder`: what the walk visits is then the recursive order of its stack.
-/

namespace LinkState

/-! ## 1. The recursive order -/

/-- The handles of a list in turn, each followed by everything below it. -/
inductive PreOrder (children : Handle → List Handle) : List Handle → List Handle → Prop
  | nil : PreOrder children [] []
  | visit {h : Handle} {hs below beside : List Handle} (hbelow : PreOrder children (children h) below)
      (hbeside : PreOrder children hs beside) : PreOrder children (h :: hs) (h :: below ++ beside)

namespace PreOrder

variable {children : Handle → List Handle}

theorem single {h : Handle} {below : List Handle} (hbelow : PreOrder children (children h) below) :
    PreOrder children [h] (h :: below) := by
  have ho := PreOrder.visit hbelow .nil
  rwa [List.append_nil] at ho

/-- **There is at most one such order.** -/
theorem unique {hs xs : List Handle} (hx : PreOrder children hs xs) :
    ∀ {ys : List Handle}, PreOrder children hs ys → xs = ys := by
  induction hx with
  | nil =>
    intro ys hy
    cases hy
    rfl
  | visit _ _ ihbelow ihbeside =>
    intro ys hy
    cases hy with
    | visit hbelow hbeside => rw [ihbelow hbelow, ihbeside hbeside]

/-- The order of two lists one after the other consists of their two orders. -/
theorem exists_of_append {hs hs' : List Handle} : ∀ {order : List Handle}, PreOrder children (hs ++ hs') order →
    ∃ xs ys, order = xs ++ ys ∧ PreOrder children hs xs ∧ PreOrder children hs' ys := by
  induction hs with
  | nil => exact fun {order} ho => ⟨[], order, rfl, .nil, ho⟩
  | cons h hs ih =>
    intro order ho
    cases ho with
    | @visit _ _ below beside hbelow hbeside =>
      obtain ⟨xs, ys, rfl, hxs, hys⟩ := ih hbeside
      exact ⟨h :: below ++ xs, ys, (List.append_assoc ..).symm, .visit hbelow hxs, hys⟩

end PreOrder

namespace Tree

variable {t t₁ t' : Tree} {stack rest order : List Handle}

/-! ## 2. The steps of a walk -/

/-- The children that are not marked come onto the stack, the last one on top. -/
theorem stackChildren_eq_filter {cs : List Handle} : ∀ {t t₁ : Tree} {stack stack₁ : List Handle},
    stackChildren cs t stack = (some stack₁, t₁) → cs.Nodup →
      stack₁ = (cs.filter fun c => decide (¬ t.Marked c)).reverse ++ stack := by
  induction cs with
  | nil =>
    intro t t₁ stack stack₁ hs _
    exact (Option.some.inj (congrArg Prod.fst hs)).symm
  | cons c cs ih =>
    intro t t₁ stack stack₁ hs hnd
    rw [List.nodup_cons] at hnd
    cases hv : t.vertex? c with
    | none => simp [stackChildren, hv] at hs
    | some v =>
      cases hp : v.processed with
      | true =>
        have hm : t.Marked c := ⟨v, hv, hp⟩
        simp only [stackChildren, hv, hp, if_true] at hs
        rw [ih hs hnd.2, List.filter_cons_of_neg (by simp [hm])]
      | false =>
        have hm : ¬ t.Marked c := by
          rw [marked_iff, hv]
          simp [hp]
        simp only [stackChildren, hv, hp, Bool.false_eq_true, if_false] at hs
        -- the mark of the child has no part in what becomes of the others
        have hfilter : (cs.filter fun d => decide (¬ (t.mark c).Marked d)) = cs.filter fun d => decide (¬ t.Marked d) :=
          List.filter_congr fun d hd => by
            have hne : d ≠ c := fun he => hnd.1 (he ▸ hd)
            rw [decide_eq_decide, marked_mark (vertex?_lt hv), or_iff_left hne]
        rw [ih hs hnd.2, hfilter, List.filter_cons_of_pos (by simp [hm]), List.reverse_cons, List.append_assoc]
        rfl

/-- A walk, visit by visit: the tree and the stack that it sets out with, what it visits in turn, and
    the tree that it leaves. -/
inductive Walks : Tree → List Handle → List Handle → Tree → Prop
  | nil {t : Tree} : Walks t [] [] t
  | visit {t t₁ t' : Tree} {h : Handle} {rest stack order : List Handle} {v : Vertex} (hv : t.vertex? h = some v)
      (hs : stackChildren v.children.reverse t rest = (some stack, t₁)) (hw : Walks t₁ stack order t') :
      Walks t (h :: rest) (h :: order) t'

theorem walks_of_walk : ∀ {order t'}, t.walk stack = (some order, t') → Walks t stack order t' := by
  induction t, stack using walk.induct with
  | case1 t =>
    intro order t' hw
    rw [walk, Prod.mk.injEq, Option.some.injEq] at hw
    obtain ⟨rfl, rfl⟩ := hw
    exact .nil
  | case2 t h rest hv =>
    intro order t' hw
    rw [walk, hv] at hw
    cases hw
  | case3 t h rest v hv t₁ hs =>
    intro order t' hw
    rw [walk, hv] at hw
    dsimp only at hw
    split at hw
    · cases hw
    · rename_i hs'
      rw [hs] at hs'
      cases hs'
  | case4 t h rest v hv stack₁ t₁ hs _ _ _ ih =>
    intro order t' hw
    rw [walk_cons hv hs, Prod.mk.injEq] at hw
    obtain ⟨horder, ht'⟩ := hw
    obtain ⟨tail, htail, rfl⟩ := Option.map_eq_some_iff.1 horder
    exact .visit hv hs (ih (Prod.ext htail ht'))

/-- **Whatever is visited** stood on the stack from the start or is a child of something visited before. -/
theorem Walks.preceded (hw : Walks t stack order t') : t.InRange → ∀ {front back : List Handle} {h : Handle},
    order = front ++ h :: back → h ∈ stack ∨ ∃ p ∈ front, h ∈ t.childrenOf p := by
  induction hw with
  | nil =>
    intro _ front back h ho
    cases front <;> cases ho
  | @visit t t₁ t' h₀ rest stack order v hv hs _ ih =>
    intro hr front back h ho
    obtain ⟨pushed, rfl, hsame, _, hpushed, _⟩ := exists_pushed hr hv hs
    cases front with
    | nil =>
      obtain ⟨rfl, _⟩ := List.cons.inj ho
      exact .inl List.mem_cons_self
    | cons p front =>
      obtain ⟨rfl, htail⟩ := List.cons.inj ho
      rcases ih (inRange_of_clearProcessed hsame hr) htail with hstack | ⟨p, hp, hc⟩
      · rcases List.mem_append.1 hstack with hk | hk
        · exact .inr ⟨h₀, List.mem_cons_self, ((hpushed h).1 hk).1⟩
        · exact .inl (List.mem_cons_of_mem _ hk)
      · rw [childrenOf_eq_of_clearProcessed hsame] at hc
        exact .inr ⟨p, List.mem_cons_of_mem _ hp, hc⟩

/-! ## 3. Trees that branch -/

/-- **The children branch like a tree**: the root is nobody's child, and every other handle is listed once at most. -/
structure Branches (t : Tree) : Prop where
  /-- No handle is a child of two vertices. -/
  parent : ∀ p q, ∀ c ∈ t.childrenOf p, c ∈ t.childrenOf q → p = q
  root : ∀ p, Tree.root ∉ t.childrenOf p
  /-- A vertex has a child once. `Vertex.addChild` adds none a second time, so this holds of every arena that
      the operations make. -/
  nodup : ∀ p, (t.childrenOf p).Nodup

/-- Only the vertices of the arena need to be looked at. -/
theorem branches_iff : t.Branches ↔
    (∀ p < t.size, ∀ q < t.size, ∀ c ∈ t.childrenOf p, c ∈ t.childrenOf q → p = q) ∧
      (∀ p < t.size, root ∉ t.childrenOf p) ∧ ∀ p < t.size, (t.childrenOf p).Nodup := by
  constructor
  · exact fun hb => ⟨fun p _ q _ => hb.parent p q, fun p _ => hb.root p, fun p _ => hb.nodup p⟩
  · rintro ⟨hparent, hroot, hnodup⟩
    refine ⟨fun p q c hp hq => ?_, fun p hp => ?_, fun p => ?_⟩
    · exact hparent p (lt_size_of_mem_childrenOf hp) q (lt_size_of_mem_childrenOf hq) c hp hq
    · exact hroot p (lt_size_of_mem_childrenOf hp) hp
    · rcases Nat.lt_or_ge p t.size with hp | hp
      · exact hnodup p hp
      · rw [childrenOf_of_size_le hp]
        exact .nil

theorem branches_of_clearProcessed (hs : t'.clearProcessed = t.clearProcessed) (hb : t.Branches) : t'.Branches := by
  constructor <;> rw [childrenOf_eq_of_clearProcessed hs]
  exacts [hb.parent, hb.root, hb.nodup]

/-- Where no child is marked, all of them come onto the stack. -/
theorem stackChildren_of_unmarked {cs stack₁ : List Handle} (hs : stackChildren cs t stack = (some stack₁, t₁))
    (hnd : cs.Nodup) (hun : ∀ c ∈ cs, ¬ t.Marked c) : stack₁ = cs.reverse ++ stack := by
  rw [stackChildren_eq_filter hs hnd, List.filter_eq_self.2 fun c hc => decide_eq_true (hun c hc)]

/-- **What a walk keeps** in a tree that branches: the stack is marked, nothing below it is, and
    whatever else is marked was come to from a marked vertex. -/
structure Unmet (t : Tree) (stack : List Handle) : Prop where
  nodup : stack.Nodup
  marked : ∀ h ∈ stack, t.Marked h
  below : ∀ h ∈ stack, ∀ c ∈ t.childrenOf h, ¬ t.Marked c
  origin : ∀ c, t.Marked c → c = root ∨ ∃ p, t.Marked p ∧ c ∈ t.childrenOf p

section Visit

variable {h : Handle} {v : Vertex} (hu : t.Unmet (h :: rest)) (hb : t.Branches) (hv : t.vertex? h = some v)
  (hs : stackChildren v.children.reverse t rest = (some stack, t₁))

include hu hb hv hs

/-- A visit puts all children on the stack, as they are listed. -/
theorem Unmet.stack_eq : stack = t.childrenOf h ++ rest := by
  have hchildren := childrenOf_of_vertex? hv
  rw [hchildren, ← List.reverse_reverse v.children]
  refine stackChildren_of_unmarked hs (List.nodup_reverse.2 (hchildren ▸ hb.nodup h)) fun c hc => ?_
  exact hu.below h List.mem_cons_self c (hchildren ▸ List.mem_reverse.1 hc)

/-- A visit keeps what a walk keeps. -/
theorem Unmet.visit (hr : t.InRange) : t₁.Unmet stack := by
  obtain rfl := hu.stack_eq hb hv hs
  obtain ⟨_, _, hsame, _, _, hmark⟩ := exists_pushed hr hv hs
  obtain ⟨hnotin, hrest⟩ := List.nodup_cons.1 hu.nodup
  have hmarked : t.Marked h := hu.marked h List.mem_cons_self
  have hbelow : ∀ c ∈ t.childrenOf h, ¬ t.Marked c := hu.below h List.mem_cons_self
  have hin : ∀ k ∈ rest, k ∈ h :: rest := fun k => List.mem_cons_of_mem _
  have hchildren := childrenOf_eq_of_clearProcessed hsame
  refine ⟨?_, fun k hk => ?_, fun k hk d hd hm => ?_, fun c hc => ?_⟩
  · refine List.nodup_append.2 ⟨hb.nodup h, hrest, fun a ha b hb' hab => ?_⟩
    exact hbelow a ha (hab ▸ hu.marked b (hin b hb'))
  · rcases List.mem_append.1 hk with hk | hk
    · exact (hmark k).2 (.inr hk)
    · exact (hmark k).2 (.inl (hu.marked k (hin k hk)))
  · rw [hchildren] at hd
    -- what the stack leads to has no other parent, so neither this visit nor an earlier one came to it
    rcases List.mem_append.1 hk with hk | hk
    · rcases (hmark d).1 hm with hm | hm
      · rcases hu.origin d hm with rfl | ⟨p, hp, hdp⟩
        · exact hb.root k hd
        · exact hbelow k hk (hb.parent p k d hdp hd ▸ hp)
      · exact hbelow k hk (hb.parent h k d hm hd ▸ hmarked)
    · rcases (hmark d).1 hm with hm | hm
      · exact hu.below k (hin k hk) d hd hm
      · exact hnotin (hb.parent h k d hm hd ▸ hk)
  · rw [hchildren]
    rcases (hmark c).1 hc with hc | hc
    · refine (hu.origin c hc).imp_right fun ho => ?_
      obtain ⟨p, hp, hcp⟩ := ho
      exact ⟨p, (hmark p).2 (.inl hp), hcp⟩
    · exact .inr ⟨h, (hmark h).2 (.inl hmarked), hc⟩

end Visit

/-- **In a tree that branches a walk visits its stack in the recursive order.** -/
theorem Walks.preOrder (hw : Walks t stack order t') : t.InRange → t.Branches → t.Unmet stack →
    PreOrder t.childrenOf stack order := by
  induction hw with
  | nil => exact fun _ _ _ => .nil
  | visit hv hs _ ih =>
    intro hr hb hu
    obtain ⟨_, _, hsame, _⟩ := exists_pushed hr hv hs
    have ho := ih (inRange_of_clearProcessed hsame hr) (branches_of_clearProcessed hsame hb) (hu.visit hb hv hs hr)
    rw [childrenOf_eq_of_clearProcessed hsame, hu.stack_eq hb hv hs] at ho
    obtain ⟨below, beside, rfl, hbelow, hbeside⟩ := ho.exists_of_append
    exact .visit hbelow hbeside

/-! ## 4. The walk from the root -/

/-- **What a depth-first walk comes past**, and the tree that it leaves. -/
structure Covers (t : Tree) (order : List Handle) (t' : Tree) : Prop where
  head : order.head? = some root
  nodup : order.Nodup
  mem_iff : ∀ h, h ∈ order ↔ Descends t.childrenOf root h
  /-- Before a handle other than the root there is one that it is a child of. -/
  parent : ∀ front h back, order = front ++ h :: back → h ≠ root → ∃ p ∈ front, h ∈ t.childrenOf p
  /-- Exactly the visited vertices are marked, and nothing else has changed. -/
  marks : ∀ h, t'.vertex? h = (t.vertex? h).map (·.setProcessed (decide (h ∈ order)))

/-- Two trees that differ in marks only differ at a handle by its mark. -/
theorem vertex?_eq_of_marked (hs : t'.clearProcessed = t.clearProcessed) {h : Handle} {b : Bool}
    (hm : t'.Marked h ↔ b = true) : t'.vertex? h = (t.vertex? h).map (·.setProcessed b) := by
  have hmap := t'.vertex?_clearProcessed h
  rw [hs, vertex?_clearProcessed] at hmap
  cases hv' : t'.vertex? h with
  | none =>
    rw [hv', Option.map_none, Option.map_eq_none_iff] at hmap
    rw [hmap]
    rfl
  | some v' =>
    rw [hv', Option.map_some, Option.map_eq_some_iff] at hmap
    obtain ⟨v, hv, hvv⟩ := hmap
    have hb : v'.processed = b := by
      rw [Bool.eq_iff_iff, ← hm]
      refine ⟨fun hp => ⟨v', hv', hp⟩, fun hmarked => ?_⟩
      obtain ⟨w, hw, hp⟩ := hmarked
      rw [hv', Option.some.injEq] at hw
      rwa [hw]
    rw [hv, Option.map_some, ← hb]
    exact congrArg some (congrArg (·.setProcessed v'.processed) hvv).symm

/-- The walk sets out with the root, and has met nothing else. -/
theorem unmet_start (hroot : root < t.size) (hb : ∀ p, root ∉ t.childrenOf p) :
    (t.clearProcessed.mark root).Unmet [root] where
  nodup := List.nodup_singleton _
  marked h hh := (marked_start hroot h).2 (List.mem_singleton.1 hh)
  below h _ c hc hm := by
    rw [(marked_start hroot c).1 hm, childrenOf_eq_of_clearProcessed t.clearProcessed_start] at hc
    exact hb h hc
  origin c hc := .inl ((marked_start hroot c).1 hc)

/-- **The depth-first walk covers what the root leads to**, whatever the children are and whatever is
    marked beforehand; where they branch like a tree, in the recursive order. -/
theorem depthFirst_covers (hr : t.InRange) (hroot : root < t.size) :
    ∃ order t', t.depthFirst = (some order, t') ∧ t.Covers order t' ∧
      (t.Branches → PreOrder t.childrenOf [root] order) := by
  obtain ⟨order, t', hwalk, hw⟩ := exists_walked_depthFirst hr hroot
  have hsame := t.clearProcessed_start
  have hchildren := childrenOf_eq_of_clearProcessed hsame
  have hr₀ : (t.clearProcessed.mark root).InRange := inRange_of_clearProcessed hsame hr
  have hwalks : Walks (t.clearProcessed.mark root) [root] order t' := walks_of_walk hwalk
  refine ⟨order, t', hwalk, ⟨head?_walk hwalk, hw.nodup, hw.mem_iff_descends hroot, fun front h back ho hne => ?_,
    fun h => ?_⟩, fun hb => ?_⟩
  · have hp := hwalks.preceded hr₀ ho
    rw [hchildren] at hp
    exact hp.resolve_left fun hstack => hne (List.mem_singleton.1 hstack)
  · refine vertex?_eq_of_marked (clearProcessed_depthFirst hwalk) ?_
    rw [decide_eq_true_iff, hw.mem_iff_marked hroot]
  · have ho := hwalks.preOrder hr₀ (branches_of_clearProcessed hsame hb) (unmet_start hroot hb.root)
    rwa [hchildren] at ho

/-- A tree made by hand, from the children of each vertex and its mark. -/
def ofChildren (vertices : List (List Handle × Bool)) : Tree :=
  ⟨vertices.map fun v => { id := .unspecified, kind := .router [], children := v.1, processed := v.2 }⟩

/-- Four vertices that branch and two that lead to each other, with the marks of another walk. -/
def grove : Tree :=
  .ofChildren [([1, 3], false), ([2], true), ([], true), ([], false), ([5], true), ([4], false)]

theorem grove_covers : grove.InRange ∧ root < grove.size ∧ grove.Branches ∧
    ∃ t', grove.depthFirst = (some [0, 1, 2, 3], t') ∧ grove.Covers [0, 1, 2, 3] t' := by
  have hr : grove.InRange := inRange_iff.2 (by decide)
  have hroot : root < grove.size := by decide
  have hb : grove.Branches := branches_iff.2 (by decide)
  obtain ⟨order, t', hwalk, hcovers, hpre⟩ := depthFirst_covers hr hroot
  have htwo : PreOrder grove.childrenOf [2] [2] := .single .nil
  have hthree : PreOrder grove.childrenOf [3] [3] := .single .nil
  have hbelow : PreOrder grove.childrenOf [1, 3] ([1, 2] ++ [3]) := .visit htwo hthree
  obtain rfl := (hpre hb).unique (.single hbelow)
  exact ⟨hr, hroot, hb, t', hwalk, hcovers⟩

/-- Shared children, ways back to the root, a vertex that is its own child, and two that nothing leads to. -/
example : (ofChildren [([1, 2, 0], false), ([3, 1], true), ([3, 0], true), ([1], false), ([2, 5], true),
    ([4], false)]).depthFirst = (some [0, 1, 3, 2], ofChildren [([1, 2, 0], true), ([3, 1], true), ([3, 0], true),
    ([1], true), ([2, 5], false), ([4], false)]) := by
  decide +kernel

end Tree

end LinkState
