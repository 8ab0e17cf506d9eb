import Mathlib.Data.Finset.Card
import LinkState.Proofs.PreOrder

/-!
# The recursive order of a graph

Where vertices share children, the recursive depth-first order passes over what it has visited before:
a vertex that is new is visited, and after it what its children lead to, one child after the other
(`Visits`). Such an order is known by what stands between a vertex and one of its children: only what
its earlier children lead to (`Unbroken`).

* `exists_visits`, `Visits.unique`: there is exactly one recursive order;
* `Visits.unbroken`: it is unbroken;
* `Unbroken.nextVisit?_eq`: in an unbroken order of a graph without cycles, the next vertex is the first
  unvisited child of the last vertex that has one;
* `visits_iff_unbroken`: so an order of everything that the root leads to is the recursive one exactly
  if it is unbroken.
-/

namespace LinkState

variable {children : Handle → List Handle}

/-! ## 1. Ways along children -/

/-- A way out of a set of handles leaves it somewhere. -/
theorem Descends.exists_leave {p : Handle → Prop} {a h : Handle} (hd : Descends children a h) (ha : p a) (hh : ¬ p h) :
    ∃ u x, Descends children a u ∧ p u ∧ x ∈ children u ∧ ¬ p x := by
  induction hd with
  | refl => exact absurd ha hh
  | @child u x hd hx ih =>
    by_cases hu : p u
    · exact ⟨u, x, hd, hu, hx, hh⟩
    · exact ih hu

/-- With more children more descends. -/
theorem Descends.mono {children' : Handle → List Handle} (hsub : ∀ p, ∀ c ∈ children p, c ∈ children' p) {a h : Handle}
    (hd : Descends children a h) : Descends children' a h := by
  induction hd with
  | refl => exact .refl
  | child _ hc ih => exact .child ih (hsub _ _ hc)

/-- What a child leads to, its parent leads to. -/
theorem Descends.of_child {p c h : Handle} (hc : c ∈ children p) (hd : Descends children c h) : Descends children p h :=
  (Descends.child .refl hc).trans hd

/-- No child leads back to its parent. -/
def Acyclic (children : Handle → List Handle) : Prop := ∀ p, ∀ c ∈ children p, ¬ Descends children c p

/-- **An order of everything below a root**: the root first, and each handle once. -/
structure Spans (children : Handle → List Handle) (root : Handle) (order : List Handle) : Prop where
  head : order.head? = some root
  nodup : order.Nodup
  mem_iff : ∀ h, h ∈ order ↔ Descends children root h

/-! ## 2. The recursive order -/

/-- **The recursive order** of a list, when the handles of `seen` have been visited before: a handle that
    was visited is passed over, any other is visited, and after it what its children lead to. -/
inductive Visits (children : Handle → List Handle) : List Handle → List Handle → List Handle → Prop
  | nil {seen : List Handle} : Visits children seen [] []
  | met {seen hs order : List Handle} {h : Handle} (hh : h ∈ seen) (hrest : Visits children seen hs order) :
    Visits children seen (h :: hs) order
  | visit {seen hs below beside : List Handle} {h : Handle} (hh : h ∉ seen)
      (hbelow : Visits children (seen ++ [h]) (children h) below)
      (hbeside : Visits children (seen ++ h :: below) hs beside) :
    Visits children seen (h :: hs) (h :: below ++ beside)

namespace Visits

variable {seen hs order : List Handle}

/-- **There is at most one recursive order.** -/
theorem unique (hv : Visits children seen hs order) : ∀ {order'}, Visits children seen hs order' → order = order' := by
  induction hv with
  | nil =>
    intro order' hv'
    cases hv'
    rfl
  | met hh _ ih =>
    intro order' hv'
    cases hv' with
    | met _ hrest => exact ih hrest
    | visit hnot _ _ => exact absurd hh hnot
  | visit hh _ _ ihbelow ihbeside =>
    intro order' hv'
    cases hv' with
    | met hmem _ => exact absurd hmem hh
    | visit _ hbelow hbeside =>
      obtain rfl := ihbelow hbelow
      rw [ihbeside hbeside]

/-- **Nothing is visited twice**, and nothing that was visited before. -/
theorem nodup (hv : Visits children seen hs order) : order.Nodup ∧ ∀ x ∈ order, x ∉ seen := by
  induction hv with
  | nil => exact ⟨.nil, fun _ hx => absurd hx List.not_mem_nil⟩
  | met _ _ ih => exact ih
  | @visit seen hs below beside h hh _ _ ihbelow ihbeside =>
    obtain ⟨hnbelow, hbelow⟩ := ihbelow
    obtain ⟨hnbeside, hbeside⟩ := ihbeside
    simp only [List.mem_append, List.mem_cons, List.not_mem_nil, or_false, not_or] at hbelow hbeside
    have hhbelow : h ∉ below := fun hmem => (hbelow h hmem).2 rfl
    have hhbeside : h ∉ beside := fun hmem => (hbeside h hmem).2.1 rfl
    refine ⟨List.nodup_cons.2 ⟨?_, List.nodup_append.2 ⟨hnbelow, hnbeside, fun a ha b hb hab => ?_⟩⟩, ?_⟩
    · exact fun hmem => (List.mem_append.1 hmem).elim hhbelow hhbeside
    · exact (hbeside b hb).2.2 (hab ▸ ha)
    · intro x hx
      rcases List.mem_cons.1 hx with rfl | hx
      · exact hh
      · exact (List.mem_append.1 hx).elim (fun hx => (hbelow x hx).1) fun hx => (hbeside x hx).1

/-- Every handle of the list is visited in the end. -/
theorem mem (hv : Visits children seen hs order) : ∀ x ∈ hs, x ∈ seen ∨ x ∈ order := by
  induction hv with
  | nil => exact fun x hx => absurd hx List.not_mem_nil
  | met hh _ ih => exact List.forall_mem_cons.2 ⟨.inl hh, ih⟩
  | @visit seen hs below beside h hh _ _ _ ihbeside =>
    refine List.forall_mem_cons.2 ⟨.inr List.mem_cons_self, fun x hx => ?_⟩
    have hx := ihbeside x hx
    simp only [List.mem_append, List.mem_cons] at hx ⊢
    tauto

/-- So are the children of what is visited. -/
theorem closed (hv : Visits children seen hs order) : ∀ x ∈ order, ∀ c ∈ children x, c ∈ seen ∨ c ∈ order := by
  induction hv with
  | nil => exact fun x hx => absurd hx List.not_mem_nil
  | met _ _ ih => exact ih
  | @visit seen hs below beside h hh hbelow _ ihbelow ihbeside =>
    intro x hx c hc
    have hcases : c ∈ seen ++ [h] ∨ c ∈ below ∨ c ∈ beside := by
      rcases List.mem_cons.1 hx with rfl | hx
      · exact (hbelow.mem c hc).imp_right .inl
      · rcases List.mem_append.1 hx with hx | hx
        · exact (ihbelow x hx c hc).imp_right .inl
        · have hc := ihbeside x hx c hc
          simp only [List.mem_append, List.mem_cons, List.not_mem_nil, or_false] at hc ⊢
          tauto
    simp only [List.mem_append, List.mem_cons, List.not_mem_nil, or_false] at hcases ⊢
    tauto

/-- Nothing is visited but what the list leads to. -/
theorem sound (hv : Visits children seen hs order) : ∀ x ∈ order, ∃ a ∈ hs, Descends children a x := by
  induction hv with
  | nil => exact fun x hx => absurd hx List.not_mem_nil
  | met _ _ ih =>
    intro x hx
    obtain ⟨a, ha, hd⟩ := ih x hx
    exact ⟨a, List.mem_cons_of_mem _ ha, hd⟩
  | @visit seen hs below beside h _ _ _ ihbelow ihbeside =>
    intro x hx
    rcases List.mem_cons.1 hx with rfl | hx
    · exact ⟨x, List.mem_cons_self, .refl⟩
    · rcases List.mem_append.1 hx with hx | hx
      · obtain ⟨a, ha, hd⟩ := ihbelow x hx
        exact ⟨h, List.mem_cons_self, hd.of_child ha⟩
      · obtain ⟨a, ha, hd⟩ := ihbeside x hx
        exact ⟨a, List.mem_cons_of_mem _ ha, hd⟩

/-- The order of two lists one after the other consists of their two orders. -/
theorem exists_of_append {front back : List Handle} (hv : Visits children seen (front ++ back) order) :
    ∃ xs ys, order = xs ++ ys ∧ Visits children seen front xs ∧ Visits children (seen ++ xs) back ys := by
  induction front generalizing seen order with
  | nil => exact ⟨[], order, rfl, .nil, by rwa [List.append_nil]⟩
  | cons h front ih =>
    cases hv with
    | met hh hrest =>
      obtain ⟨xs, ys, rfl, hxs, hys⟩ := ih hrest
      exact ⟨xs, ys, rfl, .met hh hxs, hys⟩
    | @visit _ _ below _ _ hh hbelow hbeside =>
      obtain ⟨xs, ys, rfl, hxs, hys⟩ := ih hbeside
      rw [List.append_assoc] at hys
      exact ⟨h :: below ++ xs, ys, (List.append_assoc ..).symm, .visit hh hbelow hxs, hys⟩

/-- Of a list with a handle that is new, the order begins there with that handle. -/
theorem head_of_not_mem {h : Handle} (hv : Visits children seen (h :: hs) order) (hh : h ∉ seen) :
    ∃ rest, order = h :: rest := by
  cases hv with
  | met hmem _ => exact absurd hmem hh
  | visit => exact ⟨_, rfl⟩

/-- The root is visited first, then everything that it leads to, each handle once. -/
theorem spans {root : Handle} (hv : Visits children [] [root] order) : Spans children root order := by
  obtain ⟨rest, rfl⟩ := hv.head_of_not_mem List.not_mem_nil
  refine ⟨rfl, hv.nodup.1, fun h => ⟨fun hh => ?_, fun hd => ?_⟩⟩
  · obtain ⟨a, ha, hd⟩ := hv.sound h hh
    rwa [List.mem_singleton.1 ha] at hd
  · induction hd with
    | refl => exact List.mem_cons_self
    | child _ hc ih => exact (hv.closed _ ih _ hc).resolve_left List.not_mem_nil

end Visits

/-! ## 3. There is one -/

/-- The handles below a bound that have not been visited. -/
def unseen (n : Nat) (seen : List Handle) : Finset Handle := Finset.range n \ seen.toFinset

theorem mem_unseen {n : Nat} {seen : List Handle} {h : Handle} : h ∈ unseen n seen ↔ h < n ∧ h ∉ seen := by
  rw [unseen, Finset.mem_sdiff, Finset.mem_range, List.mem_toFinset]

theorem card_unseen_append_lt {n : Nat} {seen more : List Handle} {h : Handle} (hlt : h < n) (hh : h ∉ seen)
    (hmore : h ∈ more) : (unseen n (seen ++ more)).card < (unseen n seen).card := by
  have hsub : unseen n (seen ++ more) ⊆ unseen n seen := fun x hx => by
    obtain ⟨hx, hnot⟩ := mem_unseen.1 hx
    exact mem_unseen.2 ⟨hx, fun hs => hnot (List.mem_append_left _ hs)⟩
  refine Finset.card_lt_card ((Finset.ssubset_iff_of_subset hsub).2 ⟨h, mem_unseen.2 ⟨hlt, hh⟩, fun hmem => ?_⟩)
  exact (mem_unseen.1 hmem).2 (List.mem_append_right _ hmore)

/-- **There is a recursive order**, since every visit leaves fewer handles that have not been visited. -/
theorem exists_visits {n : Nat} (hr : ∀ p, ∀ c ∈ children p, c < n) (seen hs : List Handle) (hlt : ∀ h ∈ hs, h < n) :
    ∃ order, Visits children seen hs order := by
  induction hk : (unseen n seen).card using Nat.strongRecOn generalizing seen hs with
  | ind k ih =>
    subst hk
    induction hs with
    | nil => exact ⟨[], .nil⟩
    | cons h hs ihs =>
      obtain ⟨hh, hlt⟩ := List.forall_mem_cons.1 hlt
      by_cases hseen : h ∈ seen
      · obtain ⟨order, ho⟩ := ihs hlt
        exact ⟨order, .met hseen ho⟩
      · have hless : ∀ below, (unseen n (seen ++ h :: below)).card < (unseen n seen).card := fun below =>
          card_unseen_append_lt hh hseen List.mem_cons_self
        obtain ⟨below, hbelow⟩ := ih _ (hless []) (seen ++ [h]) (children h) (hr h) rfl
        obtain ⟨beside, hbeside⟩ := ih _ (hless below) (seen ++ h :: below) hs hlt rfl
        exact ⟨h :: below ++ beside, .visit hseen hbelow hbeside⟩

/-! ## 4. Between a vertex and its children -/

/-- **Nothing breaks in between a vertex and its children**: what stands there in the order descends from
    an earlier child. -/
def Unbroken (children : Handle → List Handle) (order : List Handle) : Prop :=
  ∀ p front c back, children p = front ++ c :: back → ∀ b, [p, b, c].Sublist order →
    ∃ d ∈ front, Descends children d b

section Sublists

variable {xs ys l : List Handle} {a b c : Handle}

/-- A handle that stands in a list once does not stand in front of itself. -/
theorem not_mem_of_nodup_middle (hn : (xs ++ a :: ys).Nodup) : a ∉ xs :=
  fun ha => (List.nodup_cons.1 (List.nodup_middle.1 hn)).1 (List.mem_append_left _ ha)

/-- What ends with a handle of the front lies in the front. -/
theorem sublist_of_last_mem (hn : (xs ++ ys).Nodup) (hs : (l ++ [c]).Sublist (xs ++ ys)) (hc : c ∈ xs) :
    (l ++ [c]).Sublist xs := by
  obtain ⟨l₁, l₂, heq, hl₁, hl₂⟩ := List.sublist_append_iff.1 hs
  rcases List.eq_nil_or_concat l₂ with rfl | ⟨l₂, d, rfl⟩
  · rw [heq, List.append_nil]
    exact hl₁
  · rw [List.concat_eq_append, ← List.append_assoc] at heq
    obtain ⟨_, hd⟩ := List.append_inj' heq rfl
    rw [List.concat_eq_append, ← List.singleton_inj.1 hd] at hl₂
    have hcys : c ∈ ys := hl₂.subset (List.mem_append_right _ List.mem_cons_self)
    exact absurd rfl ((List.nodup_append.1 hn).2.2 c hc c hcys)

/-- What begins with a handle that is not in the front lies behind it. -/
theorem sublist_of_head_not_mem (hs : (a :: l).Sublist (xs ++ ys)) (ha : a ∉ xs) : (a :: l).Sublist ys := by
  obtain ⟨l₁, l₂, heq, hl₁, hl₂⟩ := List.sublist_append_iff.1 hs
  cases l₁ with
  | nil => exact heq ▸ hl₂
  | cons d l₁ =>
    obtain ⟨rfl, _⟩ := List.cons.inj heq
    exact absurd (hl₁.subset List.mem_cons_self) ha

/-- Three handles around a place in a list. -/
theorem sublist_around (ha : a ∈ xs) (hc : c ∈ ys) : [a, b, c].Sublist (xs ++ b :: ys) :=
  (List.singleton_sublist.2 ha).append ((List.singleton_sublist.2 hc).cons_cons b)

end Sublists

/-- What stands between a vertex and a child of it descends from the vertex. -/
theorem Unbroken.descends {order : List Handle} (hu : Unbroken children order) {p b c : Handle} (hc : c ∈ children p)
    (hs : [p, b, c].Sublist order) : Descends children p b := by
  obtain ⟨front, back, hchildren⟩ := List.append_of_mem hc
  obtain ⟨d, hd, hdb⟩ := hu p front c back hchildren b hs
  exact hdb.of_child (hchildren ▸ List.mem_append_left _ hd)

/-- The children of a vertex that was just visited: what comes before one of them descends from those in
    front of it. -/
theorem Visits.before_child {seen front back order : List Handle} {b c : Handle}
    (hv : Visits children seen (front ++ c :: back) order) (hs : [b, c].Sublist order) :
    ∃ d ∈ front, Descends children d b := by
  obtain ⟨xs, ys, rfl, hfront, hback⟩ := hv.exists_of_append
  obtain ⟨hn, hseen⟩ := hv.nodup
  have hc : c ∈ xs ++ ys := hs.subset (List.mem_cons_of_mem _ List.mem_cons_self)
  refine hfront.sound b ?_
  by_contra hb
  have hys : [b, c].Sublist ys := sublist_of_head_not_mem hs hb
  -- behind the front the order begins with the child
  have hcys : c ∈ ys := hys.subset (List.mem_cons_of_mem _ List.mem_cons_self)
  have hcxs : c ∉ xs := fun hcxs => (List.nodup_append.1 hn).2.2 c hcxs c hcys rfl
  obtain ⟨rest, rfl⟩ := hback.head_of_not_mem fun hmem =>
    (List.mem_append.1 hmem).elim (hseen c hc) hcxs
  have hrest := (List.nodup_cons.1 (List.nodup_append.1 hn).2.1).1
  cases hys with
  | cons _ hys => exact hrest (hys.subset (List.mem_cons_of_mem _ List.mem_cons_self))
  | cons_cons _ hys => exact hrest (hys.subset List.mem_cons_self)

/-- **A recursive order is unbroken.** -/
theorem Visits.unbroken {seen hs order : List Handle} (hv : Visits children seen hs order) : Unbroken children order := by
  induction hv with
  | nil => exact fun p front c back _ b hs => absurd (hs.subset List.mem_cons_self) List.not_mem_nil
  | met _ _ ih => exact ih
  | @visit seen hs below beside h hh hbelow hbeside ihbelow ihbeside =>
    obtain ⟨hn, hseen⟩ := (Visits.visit hh hbelow hbeside).nodup
    intro p front c back hchildren b hs
    have hc : c ∈ children p := hchildren ▸ List.mem_append_right _ List.mem_cons_self
    have hctail : c ∈ below ++ beside := hs.tail.subset (List.mem_cons_of_mem _ List.mem_cons_self)
    obtain ⟨hnot, hnrest⟩ := List.nodup_cons.1 hn
    -- the child is new, so where its parent was just visited it stands below that
    have hcbelow : c ∈ seen ++ [h] ∨ c ∈ below → c ∈ below := fun hor => hor.resolve_left fun hmem => by
      rcases List.mem_append.1 hmem with hmem | hmem
      · exact hseen c (List.mem_cons_of_mem _ hctail) hmem
      · exact hnot (List.mem_singleton.1 hmem ▸ hctail)
    rcases List.sublist_cons_iff.1 hs with hs | ⟨r, heq, hs⟩
    · by_cases hp : p ∈ below
      · exact ihbelow p front c back hchildren b
          (sublist_of_last_mem (l := [p, b]) hnrest hs (hcbelow (hbelow.closed p hp c hc)))
      · exact ihbeside p front c back hchildren b (sublist_of_head_not_mem hs hp)
    · obtain ⟨rfl, rfl⟩ := List.cons.inj heq
      have hs := sublist_of_last_mem (l := [b]) hnrest hs (hcbelow (hbelow.mem c hc))
      rw [hchildren] at hbelow
      exact hbelow.before_child hs

/-! ## 5. Unbroken orders are recursive -/

/-- What a depth-first order visits next: the first unvisited child of the last vertex that has one. -/
def nextVisit? (children : Handle → List Handle) (visited : List Handle) : Option Handle :=
  visited.reverse.findSome? fun v => (children v).find? fun c => decide (c ∉ visited)

theorem nextVisit?_eq_none {visited : List Handle} (hn : nextVisit? children visited = none) :
    ∀ v ∈ visited, ∀ c ∈ children v, c ∈ visited := by
  intro v hv c hc
  have hnone := List.findSome?_eq_none_iff.1 hn v (List.mem_reverse.2 hv)
  have hc := List.find?_eq_none.1 hnone c hc
  exact not_not.1 (by simpa using hc)

theorem nextVisit?_eq_some {visited : List Handle} {c : Handle} (hn : nextVisit? children visited = some c) :
    ∃ early v late front back, visited = early ++ v :: late ∧ children v = front ++ c :: back ∧ c ∉ visited ∧
      (∀ d ∈ front, d ∈ visited) ∧ ∀ u ∈ late, ∀ x ∈ children u, x ∈ visited := by
  obtain ⟨late, v, early, hvisited, hfind, hlate⟩ := List.findSome?_eq_some_iff.1 hn
  obtain ⟨hc, front, back, hchildren, hfront⟩ := List.find?_eq_some_iff_append.1 hfind
  refine ⟨early.reverse, v, late.reverse, front, back, ?_, hchildren, of_decide_eq_true hc, fun d hd => ?_,
    fun u hu x hx => ?_⟩
  · rw [← List.reverse_reverse visited, hvisited]
    simp
  · exact not_not.1 (by simpa using hfront d hd)
  · have hx := List.find?_eq_none.1 (hlate u (List.mem_reverse.1 hu)) x hx
    exact not_not.1 (by simpa using hx)

section Unique

variable {root : Handle} {order : List Handle}

/-- **What comes next in an unbroken order.** -/
theorem Unbroken.nextVisit?_eq (hu : Unbroken children order) (ha : Acyclic children) (hs : Spans children root order)
    {visited rest : List Handle} {b : Handle} (ho : order = visited ++ b :: rest) (hroot : root ∈ visited) :
    nextVisit? children visited = some b := by
  subst ho
  have hbnot : b ∉ visited := not_mem_of_nodup_middle hs.nodup
  have hclosed : ∀ p ∈ visited, ∀ c ∈ children p, c ∉ visited → c = b ∨ c ∈ rest := fun p hp c hc hnot => by
    have hmem := (hs.mem_iff c).2 (((hs.mem_iff p).1 (List.mem_append_left _ hp)).child hc)
    exact List.mem_cons.1 ((List.mem_append.1 hmem).resolve_left hnot)
  cases hn : nextVisit? children visited with
  | none =>
    have hdesc := (hs.mem_iff b).1 (List.mem_append_right _ List.mem_cons_self)
    obtain ⟨u, x, _, hmem, hx, hnot⟩ := hdesc.exists_leave (p := (· ∈ visited)) hroot hbnot
    exact absurd (nextVisit?_eq_none hn u hmem x hx) hnot
  | some c =>
    obtain ⟨early, v, late, front, back, rfl, hchildren, hcnot, hfront, hlate⟩ := nextVisit?_eq_some hn
    have hv : v ∈ early ++ v :: late := List.mem_append_right _ List.mem_cons_self
    have hc : c ∈ children v := hchildren ▸ List.mem_append_right _ List.mem_cons_self
    by_contra hne
    have hcrest : c ∈ rest := (hclosed v hv c hc hcnot).resolve_left fun he => hne (congrArg some he)
    -- what stands before the child descends from an earlier one, and on the way there a visited vertex
    -- has a child that is not visited
    obtain ⟨d, hd, hdb⟩ := hu v front c back hchildren b (sublist_around hv hcrest)
    obtain ⟨u, x, hdu, humem, hx, hxnot⟩ := hdb.exists_leave (p := (· ∈ early ++ v :: late)) (hfront d hd) hbnot
    have hvd : d ∈ children v := hchildren ▸ List.mem_append_left _ hd
    rcases List.mem_append.1 humem with huearly | hu'
    · -- this vertex stands before, so the way leads back
      have hxrest : x ∈ late ++ b :: rest := by
        have := hclosed u humem x hx hxnot
        simp only [List.mem_append, List.mem_cons]
        tauto
      have hsub : [u, v, x].Sublist (early ++ v :: late ++ b :: rest) := by
        rw [List.append_assoc]
        exact sublist_around huearly hxrest
      exact ha v d hvd (hdu.trans (hu.descends hx hsub))
    · rcases List.mem_cons.1 hu' with rfl | hulate
      · exact ha u d hvd hdu
      · exact hxnot (hlate u hulate x hx)

/-- **There is one unbroken order at most.** -/
theorem Unbroken.unique (ha : Acyclic children) {visited : List Handle} (hroot : root ∈ visited) :
    ∀ {rest rest' : List Handle}, Unbroken children (visited ++ rest) → Unbroken children (visited ++ rest') →
      Spans children root (visited ++ rest) → Spans children root (visited ++ rest') → rest = rest' := by
  intro rest
  induction rest generalizing visited with
  | nil =>
    intro rest' _ _ hs hs'
    rw [List.append_nil] at hs
    refine (List.eq_nil_iff_forall_not_mem.2 fun x hx => ?_).symm
    have hmem := (hs.mem_iff x).2 ((hs'.mem_iff x).1 (List.mem_append_right _ hx))
    exact (List.nodup_append.1 hs'.nodup).2.2 x hmem x hx rfl
  | cons b rest ih =>
    intro rest' hu hu' hs hs'
    cases rest' with
    | nil =>
      rw [List.append_nil] at hs'
      have hmem := (hs'.mem_iff b).2 ((hs.mem_iff b).1 (List.mem_append_right _ List.mem_cons_self))
      exact absurd rfl ((List.nodup_append.1 hs.nodup).2.2 b hmem b List.mem_cons_self)
    | cons b' rest' =>
      have hb := hu.nextVisit?_eq ha hs rfl hroot
      rw [hu'.nextVisit?_eq ha hs' rfl hroot, Option.some.injEq] at hb
      subst hb
      rw [List.append_cons] at hu hu' hs hs'
      rw [ih (List.mem_append_left _ hroot) hu hu' hs hs']

/-- **An order of everything that the root leads to is recursive exactly if it is unbroken.** -/
theorem visits_iff_unbroken {n : Nat} (ha : Acyclic children) (hr : ∀ p, ∀ c ∈ children p, c < n) (hroot : root < n)
    (hs : Spans children root order) : Visits children [] [root] order ↔ Unbroken children order := by
  refine ⟨Visits.unbroken, fun hu => ?_⟩
  obtain ⟨order', hv⟩ := exists_visits hr [] [root] (List.forall_mem_singleton.2 hroot)
  obtain ⟨rest, rfl⟩ := List.head?_eq_some_iff.1 hs.head
  obtain ⟨rest', rfl⟩ := List.head?_eq_some_iff.1 hv.spans.head
  have heq : rest = rest' := Unbroken.unique ha (List.mem_singleton_self root) hu hv.unbroken hs hv.spans
  rwa [heq]

end Unique

end LinkState
