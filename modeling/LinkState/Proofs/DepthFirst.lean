import LinkState.Proofs.Labels

/-!
# The depth-first walk

A walk marks the vertices that it has come past and changes nothing else of a tree: two trees that
differ in marks only become equal under `clearProcessed`. `Walked t stack order t'` says what a walk
has done that set out from `t` with the handles of `stack` before it:

* it has visited the handles of the stack and those it has newly marked, each once;
* every child of a handle that it has visited is marked;
* it has visited nothing that does not descend from the stack.

A walk begins with the handle on top of its stack (`head?_walk`). Where no child leads outside the
arena (`InRange`) every walk comes to its end (`exists_walked`), and the depth-first order from the
root holds exactly what descends from the root (`exists_depthFirst`).
-/

namespace LinkState

/-- `h` is reached from `a` along children. -/
inductive Descends (children : Handle → List Handle) (a : Handle) : Handle → Prop
  | refl : Descends children a a
  | child {h c : Handle} (hd : Descends children a h) (hc : c ∈ children h) : Descends children a c

theorem Descends.trans {children : Handle → List Handle} {a b c : Handle} (h₁ : Descends children a b)
    (h₂ : Descends children b c) : Descends children a c := by
  induction h₂ with
  | refl => exact h₁
  | child _ hc ih => exact .child ih hc

namespace Tree

/-! ## 1. Children and marks -/

/-- The children of the vertex under a handle; outside the arena there are none. -/
def childrenOf (t : Tree) (h : Handle) : List Handle := ((t.vertex? h).map (·.children)).getD []

/-- No child leads outside the arena. -/
def InRange (t : Tree) : Prop := ∀ h, ∀ c ∈ t.childrenOf h, c < t.size

/-- A walk has come past the vertex under a handle. -/
def Marked (t : Tree) (h : Handle) : Prop := ∃ v, t.vertex? h = some v ∧ v.processed = true

theorem marked_iff {t : Tree} {h : Handle} : t.Marked h ↔ (t.vertex? h).any (·.processed) = true := by
  unfold Marked
  cases t.vertex? h <;> simp

instance (t : Tree) (h : Handle) : Decidable (t.Marked h) := decidable_of_iff _ marked_iff.symm

theorem childrenOf_of_vertex? {t : Tree} {h : Handle} {v : Vertex} (hv : t.vertex? h = some v) :
    t.childrenOf h = v.children := by
  rw [childrenOf, hv]
  rfl

theorem childrenOf_of_size_le {t : Tree} {h : Handle} (hh : t.size ≤ h) : t.childrenOf h = [] := by
  have hnone : t.vertex? h = none := List.getElem?_eq_none hh
  rw [childrenOf, hnone]
  rfl

theorem lt_size_of_mem_childrenOf {t : Tree} {h c : Handle} (hc : c ∈ t.childrenOf h) : h < t.size := by
  refine Nat.lt_of_not_le fun hh => ?_
  rw [childrenOf_of_size_le hh] at hc
  cases hc

theorem InRange.lt_size_of_vertex? {t : Tree} {h : Handle} {v : Vertex} (hr : t.InRange) (hv : t.vertex? h = some v) :
    ∀ c ∈ v.children.reverse, c < t.size := by
  intro c hc
  refine hr h c ?_
  rw [childrenOf_of_vertex? hv]
  exact List.mem_reverse.1 hc

/-- Only the vertices of the arena need to be looked at. -/
theorem inRange_iff {t : Tree} : t.InRange ↔ ∀ h < t.size, ∀ c ∈ t.childrenOf h, c < t.size :=
  ⟨fun hr h _ => hr h, fun hr h c hc => hr h (lt_size_of_mem_childrenOf hc) c hc⟩

theorem vertex?_clearProcessed (t : Tree) (h : Handle) :
    t.clearProcessed.vertex? h = (t.vertex? h).map (·.setProcessed false) := by
  simp [clearProcessed, vertex?]

@[simp] theorem clearProcessed_clearProcessed (t : Tree) : t.clearProcessed.clearProcessed = t.clearProcessed := by
  simp [clearProcessed, Vertex.setProcessed]

@[simp] theorem clearProcessed_mark (t : Tree) (h : Handle) : (t.mark h).clearProcessed = t.clearProcessed := by
  refine congrArg Tree.mk (List.ext_getElem? fun k => ?_)
  show (t.mark h).clearProcessed.vertex? k = t.clearProcessed.vertex? k
  rw [vertex?_clearProcessed, vertex?_clearProcessed, mark, vertex?_modify]
  split
  · rw [Option.map_map]
    rfl
  · rfl

@[simp] theorem size_clearProcessed (t : Tree) : t.clearProcessed.size = t.size := by
  simp [clearProcessed, size]

@[simp] theorem childrenOf_clearProcessed (t : Tree) : t.clearProcessed.childrenOf = t.childrenOf := by
  funext h
  rw [childrenOf, vertex?_clearProcessed, Option.map_map]
  rfl

section Same

variable {t t' : Tree}

theorem size_eq_of_clearProcessed (hs : t'.clearProcessed = t.clearProcessed) : t'.size = t.size := by
  rw [← t'.size_clearProcessed, hs, size_clearProcessed]

theorem childrenOf_eq_of_clearProcessed (hs : t'.clearProcessed = t.clearProcessed) :
    t'.childrenOf = t.childrenOf := by
  rw [← t'.childrenOf_clearProcessed, hs, childrenOf_clearProcessed]

theorem inRange_of_clearProcessed (hs : t'.clearProcessed = t.clearProcessed) (hr : t.InRange) : t'.InRange := by
  unfold InRange
  rw [childrenOf_eq_of_clearProcessed hs, size_eq_of_clearProcessed hs]
  exact hr

end Same

theorem not_marked_clearProcessed (t : Tree) (h : Handle) : ¬ t.clearProcessed.Marked h := by
  intro hm
  obtain ⟨v, hv, hp⟩ := hm
  rw [vertex?_clearProcessed] at hv
  obtain ⟨w, _, rfl⟩ := Option.map_eq_some_iff.1 hv
  cases hp

/-- Marking a vertex marks that vertex and no other. -/
theorem marked_mark {t : Tree} {h : Handle} (hh : h < t.size) (k : Handle) :
    (t.mark h).Marked k ↔ t.Marked k ∨ k = h := by
  unfold Marked
  rw [mark, vertex?_modify]
  by_cases hk : h = k
  · subst hk
    obtain ⟨v, hv⟩ := exists_vertex? hh
    rw [if_pos rfl, hv]
    exact iff_of_true ⟨_, rfl, rfl⟩ (.inr rfl)
  · rw [if_neg hk]
    exact (or_iff_left (Ne.symm hk)).symm

/-! ## 2. The steps of a walk -/

/-- Stacking children changes nothing but marks, also where it breaks off. -/
theorem clearProcessed_stackChildren {cs : List Handle} : ∀ {t t' : Tree} {stack : List Handle}
    {answer : Option (List Handle)}, stackChildren cs t stack = (answer, t') → t'.clearProcessed = t.clearProcessed := by
  induction cs with
  | nil =>
    intro t t' stack answer h
    exact congrArg clearProcessed (congrArg Prod.snd h).symm
  | cons c cs ih =>
    intro t t' stack answer h
    unfold stackChildren at h
    split at h
    · exact congrArg clearProcessed (congrArg Prod.snd h).symm
    · split at h
      · exact ih h
      · exact (ih h).trans (t.clearProcessed_mark c)

/-- **Stacking children** marks all of them and puts those on the stack that were not marked. -/
theorem exists_stackChildren {cs : List Handle} : ∀ {t : Tree} (stack : List Handle), (∀ c ∈ cs, c < t.size) →
    ∃ pushed t', stackChildren cs t stack = (some (pushed ++ stack), t') ∧ pushed.Nodup ∧
      (∀ h, h ∈ pushed ↔ h ∈ cs ∧ ¬ t.Marked h) ∧ ∀ h, t'.Marked h ↔ t.Marked h ∨ h ∈ cs := by
  induction cs with
  | nil =>
    intro t stack _
    exact ⟨[], t, rfl, .nil, fun h => by simp, fun h => by simp⟩
  | cons c cs ih =>
    intro t stack hcs
    obtain ⟨v, hv⟩ := exists_vertex? (hcs c List.mem_cons_self)
    have htail : ∀ d ∈ cs, d < t.size := fun d hd => hcs d (List.mem_cons_of_mem _ hd)
    cases hp : v.processed with
    | true =>
      have hmarked : t.Marked c := ⟨v, hv, hp⟩
      obtain ⟨pushed, t', hst, hnd, hmem, hmark⟩ := ih stack htail
      refine ⟨pushed, t', by simp [stackChildren, hv, hp, hst], hnd, fun h => ?_, fun h => ?_⟩
      · rw [hmem, List.mem_cons, or_and_right]
        refine (or_iff_right fun hc => ?_).symm
        exact hc.2 (hc.1 ▸ hmarked)
      · rw [hmark, List.mem_cons, ← or_assoc]
        refine or_congr_left (or_iff_left_of_imp fun hc => ?_).symm
        exact hc ▸ hmarked
    | false =>
      have hnot : ¬ t.Marked c := by
        rintro ⟨w, hw, hwp⟩
        rw [hv, Option.some.injEq] at hw
        rw [← hw, hp] at hwp
        cases hwp
      have hmark1 := marked_mark (hcs c List.mem_cons_self)
      obtain ⟨pushed, t', hst, hnd, hmem, hmark⟩ := ih (t := t.mark c) (c :: stack) (by simpa [mark] using htail)
      refine ⟨pushed ++ [c], t', by simp [stackChildren, hv, hp, hst], ?_, fun h => ?_, fun h => ?_⟩
      · refine List.nodup_append.2 ⟨hnd, by simp, fun a ha b hb hab => ?_⟩
        -- the child is marked by the time its later siblings are looked at
        rw [hab, List.mem_singleton.1 hb] at ha
        exact ((hmem c).1 ha).2 ((hmark1 c).2 (.inr rfl))
      · rw [List.mem_append, List.mem_singleton, hmem, hmark1, List.mem_cons]
        by_cases hc : h = c
        · subst hc
          simp [hnot]
        · simp [hc]
      · rw [hmark, hmark1, List.mem_cons, or_assoc]

/-- **A visit** marks all children of the handle and puts those on the stack that were not marked. -/
theorem exists_pushed {t t₁ : Tree} {h : Handle} {v : Vertex} {rest stack : List Handle} (hr : t.InRange)
    (hv : t.vertex? h = some v) (hs : stackChildren v.children.reverse t rest = (some stack, t₁)) :
    ∃ pushed, stack = pushed ++ rest ∧ t₁.clearProcessed = t.clearProcessed ∧ pushed.Nodup ∧
      (∀ k, k ∈ pushed ↔ k ∈ t.childrenOf h ∧ ¬ t.Marked k) ∧
      ∀ k, t₁.Marked k ↔ t.Marked k ∨ k ∈ t.childrenOf h := by
  have hsame := clearProcessed_stackChildren hs
  obtain ⟨pushed, t₂, hs', hnd, hmem, hmark⟩ := exists_stackChildren rest (hr.lt_size_of_vertex? hv)
  rw [hs, Prod.mk.injEq, Option.some.injEq] at hs'
  obtain ⟨rfl, rfl⟩ := hs'
  simp only [List.mem_reverse, ← childrenOf_of_vertex? hv] at hmem hmark
  exact ⟨pushed, rfl, hsame, hnd, hmem, hmark⟩

/-- What a walk has done when it ends. -/
structure Walked (t : Tree) (stack order : List Handle) (t' : Tree) : Prop where
  nodup : order.Nodup
  mem_iff : ∀ h, h ∈ order ↔ h ∈ stack ∨ t'.Marked h ∧ ¬ t.Marked h
  mono : ∀ h, t.Marked h → t'.Marked h
  closed : ∀ h ∈ order, ∀ c ∈ t.childrenOf h, t'.Marked c
  sound : ∀ h ∈ order, ∃ a ∈ stack, Descends t.childrenOf a h

/-- A visit, and the walk that goes on with what the visit has put on the stack. -/
theorem Walked.visit {t t₁ t' : Tree} {h : Handle} {rest pushed order : List Handle}
    (hh : t.Marked h) (hne : h ∉ rest)
    (hsame : t₁.clearProcessed = t.clearProcessed)
    (hmem : ∀ k, k ∈ pushed ↔ k ∈ t.childrenOf h ∧ ¬ t.Marked k)
    (hmark : ∀ k, t₁.Marked k ↔ t.Marked k ∨ k ∈ t.childrenOf h) (hw : Walked t₁ (pushed ++ rest) order t') :
    Walked t (h :: rest) (h :: order) t' where
  nodup := by
    refine List.nodup_cons.2 ⟨fun ho => ?_, hw.nodup⟩
    rcases (hw.mem_iff h).1 ho with hs | ⟨_, hn⟩
    · rcases List.mem_append.1 hs with hp | hr
      · exact ((hmem h).1 hp).2 hh
      · exact hne hr
    · exact hn ((hmark h).2 (.inl hh))
  mem_iff k := by
    rw [List.mem_cons, List.mem_cons, or_assoc]
    refine or_congr_right ?_
    rw [hw.mem_iff, List.mem_append, hmem, hmark]
    have hup : k ∈ t.childrenOf h → t'.Marked k := fun hc => hw.mono k ((hmark k).2 (.inr hc))
    by_cases hm : t.Marked k
    · simp [hm]
    · by_cases hc : k ∈ t.childrenOf h
      · simp [hm, hc, hup hc]
      · simp [hm, hc]
  mono k hk := hw.mono k ((hmark k).2 (.inl hk))
  closed k hk c hc := by
    rcases List.mem_cons.1 hk with rfl | hk
    · exact hw.mono c ((hmark c).2 (.inr hc))
    · rw [← childrenOf_eq_of_clearProcessed hsame] at hc
      exact hw.closed k hk c hc
  sound k hk := by
    rcases List.mem_cons.1 hk with rfl | hk
    · exact ⟨k, List.mem_cons_self, .refl⟩
    · obtain ⟨a, ha, hd⟩ := hw.sound k hk
      rw [childrenOf_eq_of_clearProcessed hsame] at hd
      rcases List.mem_append.1 ha with hp | hr
      · exact ⟨h, List.mem_cons_self, (Descends.child .refl ((hmem a).1 hp).1).trans hd⟩
      · exact ⟨a, List.mem_cons_of_mem _ hr, hd⟩

theorem walk_cons {t t₁ : Tree} {h : Handle} {rest stack : List Handle} {v : Vertex} (hv : t.vertex? h = some v)
    (hs : stackChildren v.children.reverse t rest = (some stack, t₁)) :
    t.walk (h :: rest) = ((t₁.walk stack).1.map (h :: ·), (t₁.walk stack).2) := by
  rw [walk, hv]
  dsimp only
  split
  · rename_i hs'
    rw [hs] at hs'
    cases hs'
  · rename_i hs'
    rw [hs] at hs'
    cases hs'
    rfl

/-- **A walk changes nothing but marks**, also where it breaks off. -/
theorem clearProcessed_walk (t : Tree) (stack : List Handle) :
    (t.walk stack).2.clearProcessed = t.clearProcessed := by
  induction t, stack using walk.induct with
  | case1 t => rw [walk]
  | case2 t h rest hv => rw [walk, hv]
  | case3 t h rest v hv t₁ hs =>
    rw [walk, hv]
    dsimp only
    split
    · rename_i hs'
      exact clearProcessed_stackChildren hs'
    · rename_i hs'
      rw [hs] at hs'
      cases hs'
  | case4 t h rest v hv stack' t₁ hs _ _ _ ih =>
    rw [walk_cons hv hs]
    exact ih.trans (clearProcessed_stackChildren hs)

/-- A walk begins with the handle on top of its stack. -/
theorem head?_walk {t t' : Tree} {h : Handle} {rest order : List Handle}
    (hw : t.walk (h :: rest) = (some order, t')) : order.head? = some h := by
  rw [walk] at hw
  split at hw
  · cases hw
  · split at hw
    · cases hw
    · obtain ⟨tail, _, rfl⟩ := Option.map_eq_some_iff.1 (congrArg Prod.fst hw)
      rfl

/-- **A walk over marked handles comes to its end** if no child leads outside the arena. -/
theorem exists_walked {t : Tree} {stack : List Handle} : t.InRange → (∀ h ∈ stack, t.Marked h) → stack.Nodup →
    ∃ order t', t.walk stack = (some order, t') ∧ Walked t stack order t' := by
  induction t, stack using walk.induct with
  | case1 t =>
    intro _ _ _
    refine ⟨[], t, by rw [walk], .nil, fun h => ?_, fun _ hm => hm, fun h hh => ?_, fun h hh => ?_⟩
    · simp
    · cases hh
    · cases hh
  | case2 t h rest hv =>
    intro _ hmarked _
    obtain ⟨v, hv', _⟩ := hmarked h List.mem_cons_self
    rw [hv] at hv'
    cases hv'
  | case3 t h rest v hv t' hs =>
    intro hr _ _
    obtain ⟨pushed, t'', hs', _⟩ := exists_stackChildren rest (hr.lt_size_of_vertex? hv)
    rw [hs] at hs'
    cases hs'
  | case4 t h rest v hv stack' t₁ hs _ _ _ ih =>
    intro hr hstack hnd
    obtain ⟨pushed, rfl, hsame, hpn, hmem, hmark⟩ := exists_pushed hr hv hs
    have hrest : ∀ k ∈ rest, t.Marked k := fun k hk => hstack k (List.mem_cons_of_mem _ hk)
    rw [List.nodup_cons] at hnd
    obtain ⟨order, t', hwalk, hw⟩ := ih (inRange_of_clearProcessed hsame hr)
      (fun k hk => (hmark k).2 <| (List.mem_append.1 hk).elim (fun hp => .inr ((hmem k).1 hp).1)
        fun hk => .inl (hrest k hk))
      (List.nodup_append.2 ⟨hpn, hnd.2, fun a ha b hb hab => ((hmem a).1 ha).2 (hab ▸ hrest b hb)⟩)
    refine ⟨h :: order, t', ?_, .visit (hstack h List.mem_cons_self) hnd.1 hsame hmem hmark hw⟩
    rw [walk_cons hv hs, hwalk]
    rfl

/-! ## 3. The depth-first order -/

/-- The walk sets out with the root marked and nothing else. -/
theorem marked_start {t : Tree} (hroot : root < t.size) (h : Handle) :
    (t.clearProcessed.mark root).Marked h ↔ h = root := by
  rw [marked_mark (by simpa using hroot), or_iff_right (t.not_marked_clearProcessed h)]

theorem clearProcessed_start (t : Tree) : (t.clearProcessed.mark root).clearProcessed = t.clearProcessed := by
  rw [clearProcessed_mark, clearProcessed_clearProcessed]

/-- So does the walk from the root. -/
theorem clearProcessed_depthFirst {t t' : Tree} {answer : Option (List Handle)} (hwalk : t.depthFirst = (answer, t')) :
    t'.clearProcessed = t.clearProcessed := by
  have hsame := clearProcessed_walk (t.clearProcessed.mark root) [root]
  rwa [← depthFirst, hwalk, clearProcessed_start] at hsame

theorem exists_walked_depthFirst {t : Tree} (hr : t.InRange) (hroot : root < t.size) :
    ∃ order t', t.depthFirst = (some order, t') ∧ Walked (t.clearProcessed.mark root) [root] order t' :=
  exists_walked (inRange_of_clearProcessed t.clearProcessed_start hr)
    (fun h hh => (marked_start hroot h).2 (List.mem_singleton.1 hh)) (by simp)

section Start

variable {t t' : Tree} {order : List Handle}

/-- What the walk from the root has marked is what it has visited. -/
theorem Walked.mem_iff_marked (hw : Walked (t.clearProcessed.mark root) [root] order t') (hroot : root < t.size)
    (h : Handle) : h ∈ order ↔ t'.Marked h := by
  rw [hw.mem_iff, List.mem_singleton, marked_start hroot]
  by_cases hh : h = root
  · simp [hh, hw.mono root ((marked_start hroot root).2 rfl)]
  · simp [hh]

/-- **The walk from the root visits what descends from the root.** -/
theorem Walked.mem_iff_descends (hw : Walked (t.clearProcessed.mark root) [root] order t') (hroot : root < t.size)
    (h : Handle) : h ∈ order ↔ Descends t.childrenOf root h := by
  have hchildren := childrenOf_eq_of_clearProcessed t.clearProcessed_start
  refine ⟨fun hh => ?_, fun hd => ?_⟩
  · obtain ⟨a, ha, hd⟩ := hw.sound h hh
    rwa [List.mem_singleton.1 ha, hchildren] at hd
  · induction hd with
    | refl => exact (hw.mem_iff root).2 (.inl List.mem_cons_self)
    | @child h c _ hc ih => exact (hw.mem_iff_marked hroot c).2 (hw.closed h ih c (hchildren ▸ hc))

end Start

/-- **The depth-first order** holds what descends from the root, each handle once, and the walk
    changes nothing but marks. -/
theorem exists_depthFirst {t : Tree} (hr : t.InRange) (hroot : root < t.size) :
    ∃ order t', t.depthFirst = (some order, t') ∧ t'.clearProcessed = t.clearProcessed ∧ order.Nodup ∧
      ∀ h, h ∈ order ↔ Descends t.childrenOf root h := by
  obtain ⟨order, t', hwalk, hw⟩ := exists_walked_depthFirst hr hroot
  exact ⟨order, t', hwalk, clearProcessed_depthFirst hwalk, hw.nodup, hw.mem_iff_descends hroot⟩

end Tree

end LinkState
