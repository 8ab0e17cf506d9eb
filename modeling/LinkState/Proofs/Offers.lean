import LinkState.Proofs.Labels
import LinkState.ShortestPath

/-!
# What a candidate makes of its offers

Every edge that is followed out of a settled vertex is an `Offer` to the node that it leads to: a
distance, a parent, and the exits of the root that the path uses. A node takes its first offer as
it is (`Vertex.found`); later ones it passes over, puts beside the earlier ones or takes in their
place (`Vertex.accept`).

`SumsUp O w` says what comes of it: the distance of `w` is the least that was offered, and its
parents and exits are those of all offers of that distance. Both operations keep it
(`SumsUp.found`, `SumsUp.accept`), in whatever order the offers come.
-/

namespace LinkState

/-- An edge followed out of a settled vertex. -/
structure Offer where
  origin : Handle
  source : Vertex
  edge : Edge

namespace Offer

/-- The distance over the edge. -/
def distance (o : Offer) : Metric := o.source.distance.extend o.edge.cost

/-- The exits through which the edge leads to the node `w`. -/
def exits (resolve : Resolver) (o : Offer) (w : Node) : List Exit :=
  firstHops resolve (o.origin == Tree.root) o.source w o.edge.link

end Offer

/-- The first hops to a node depend on its identifier and kind only. -/
theorem firstHops_congr {w w' : Node} (hid : w.id = w'.id) (hk : w.kind = w'.kind) (resolve : Resolver)
    (fromRoot : Bool) (v : Vertex) (link : Option Link) :
    firstHops resolve fromRoot v w link = firstHops resolve fromRoot v w' link := by
  unfold firstHops
  rw [hid, hk]

namespace Vertex

/-- The vertex of a node that takes its first offer. -/
def found (resolve : Resolver) (n : Node) (o : Offer) : Vertex :=
  (((Vertex.ofNode n).setExits (o.exits resolve n)).setDistance o.distance).setParent o.origin

/-- What becomes of a candidate with a further offer. -/
def accept (resolve : Resolver) (w : Vertex) (o : Offer) : Vertex :=
  if w.distance < o.distance then w
  else if w.distance = o.distance then (w.mergeExits (o.exits resolve w.node)).mergeParents [o.origin]
  else ((w.setExits (o.exits resolve w.node)).setDistance o.distance).setParent o.origin

theorem accept_of_lt {resolve : Resolver} {w : Vertex} {o : Offer} (h : w.distance < o.distance) :
    w.accept resolve o = w :=
  if_pos h

theorem accept_of_eq {resolve : Resolver} {w : Vertex} {o : Offer} (h : w.distance = o.distance) :
    w.accept resolve o = (w.mergeExits (o.exits resolve w.node)).mergeParents [o.origin] := by
  have hge : ¬ w.distance < o.distance := h ▸ Nat.lt_irrefl _
  rw [accept, if_neg hge, if_pos h]

theorem accept_of_gt {resolve : Resolver} {w : Vertex} {o : Offer} (h : o.distance < w.distance) :
    w.accept resolve o =
      ((w.setExits (o.exits resolve w.node)).setDistance o.distance).setParent o.origin := by
  have hge : ¬ w.distance < o.distance := Nat.lt_asymm h
  have hne : w.distance ≠ o.distance := fun e => Nat.lt_irrefl _ (e ▸ h)
  rw [accept, if_neg hge, if_neg hne]

/-- An offer is shorter than a vertex, as long, or longer. -/
theorem distance_trichotomy (w : Vertex) (o : Offer) :
    w.distance < o.distance ∨ w.distance = o.distance ∨ o.distance < w.distance := by
  rw [UInt32.lt_iff_toNat_lt, UInt32.lt_iff_toNat_lt, ← UInt32.toNat_inj]
  exact Nat.lt_trichotomy _ _

@[simp] theorem node_found (resolve : Resolver) (n : Node) (o : Offer) :
    (found resolve n o).node = { id := n.id, kind := n.kind } := rfl

@[simp] theorem node_accept (resolve : Resolver) (w : Vertex) (o : Offer) :
    (w.accept resolve o).node = w.node := by
  rcases w.distance_trichotomy o with h | h | h
  · rw [accept_of_lt h]
  · rw [accept_of_eq h]
    rfl
  · rw [accept_of_gt h]
    rfl

@[simp] theorem kind_accept (resolve : Resolver) (w : Vertex) (o : Offer) :
    (w.accept resolve o).kind = w.kind :=
  congrArg Node.kind (node_accept resolve w o)

@[simp] theorem id_accept (resolve : Resolver) (w : Vertex) (o : Offer) : (w.accept resolve o).id = w.id :=
  congrArg Node.id (node_accept resolve w o)

end Vertex

/-- **The vertex sums up its offers**: it has the least distance offered, and the parents and exits
    of every offer of that distance, each once. -/
structure SumsUp (resolve : Resolver) (O : Offer → Prop) (w : Vertex) : Prop where
  le : ∀ o, O o → w.distance.toNat ≤ o.distance.toNat
  attained : ∃ o, O o ∧ o.distance = w.distance
  mem_parents : ∀ p, p ∈ w.parents ↔ ∃ o, O o ∧ o.distance = w.distance ∧ o.origin = p
  mem_exits : ∀ x, x ∈ w.exits ↔ ∃ o, O o ∧ o.distance = w.distance ∧ x ∈ o.exits resolve w.node
  nodup_parents : w.parents.Nodup
  nodup_exits : w.exits.Nodup

namespace SumsUp

variable {resolve : Resolver} {O O' : Offer → Prop} {w : Vertex} {o : Offer}

theorem congr (hs : SumsUp resolve O w) (hO : ∀ o, O' o ↔ O o) : SumsUp resolve O' w := by
  have : O' = O := funext fun o => propext (hO o)
  exact this ▸ hs

/-- The only offer is summed up by taking it. -/
theorem only (hO : ∀ o', O o' ↔ o' = o) (hd : w.distance = o.distance) (hp : w.parents = [o.origin])
    (hx : w.exits = Distinct.merge [] (o.exits resolve w.node)) : SumsUp resolve O w where
  le o' ho' := by
    have ho' : o' = o := (hO o').1 ho'
    exact Nat.le_of_eq (congrArg UInt32.toNat (ho' ▸ hd))
  attained := ⟨o, (hO o).2 rfl, hd.symm⟩
  mem_parents p := by
    simp [hO, hd, hp, eq_comm]
  mem_exits x := by
    simp [hO, hd, hx]
  nodup_parents := by simp [hp]
  nodup_exits := hx ▸ Distinct.nodup_merge .nil

/-- **A node sums up its first offer.** -/
theorem found {n : Node} (hO : ∀ o', O o' ↔ o' = o) : SumsUp resolve O (Vertex.found resolve n o) :=
  only hO rfl rfl <| congrArg (Distinct.merge []) (firstHops_congr rfl rfl ..)

/-- An offer beyond the distance of a vertex counts for nothing. -/
theorem of_lt (hs : SumsUp resolve O w) (hO : ∀ o', O' o' ↔ O o' ∨ o' = o)
    (hlt : w.distance.toNat < o.distance.toNat) : SumsUp resolve O' w := by
  have hne : o.distance ≠ w.distance := fun e => Nat.lt_irrefl _ (e ▸ hlt)
  have hi : ∀ o', O' o' ∧ o'.distance = w.distance ↔ O o' ∧ o'.distance = w.distance := fun o' => by
    rw [hO]
    refine ⟨fun hx => ?_, fun hx => ?_⟩
    · obtain ⟨h | rfl, hd⟩ := hx
      · exact ⟨h, hd⟩
      · exact absurd hd hne
    · obtain ⟨h, hd⟩ := hx
      exact ⟨.inl h, hd⟩
  refine ⟨fun o' ho' => ?_, ?_, fun p => ?_, fun x => ?_, hs.nodup_parents, hs.nodup_exits⟩
  · rcases (hO o').1 ho' with h | rfl
    · exact hs.le o' h
    · exact Nat.le_of_lt hlt
  · obtain ⟨o', ho'⟩ := hs.attained
    exact ⟨o', (hi o').2 ho'⟩
  · rw [hs.mem_parents]
    exact exists_congr fun o' => by rw [← and_assoc, ← and_assoc, hi]
  · rw [hs.mem_exits]
    exact exists_congr fun o' => by rw [← and_assoc, ← and_assoc, hi]

/-- An offer of the same distance adds its parent and its exits. -/
theorem of_eq (hs : SumsUp resolve O w) (hO : ∀ o', O' o' ↔ O o' ∨ o' = o)
    (hd : w.distance = o.distance) :
    SumsUp resolve O' ((w.mergeExits (o.exits resolve w.node)).mergeParents [o.origin]) := by
  refine ⟨fun o' ho' => ?_, ⟨o, (hO o).2 (.inr rfl), hd.symm⟩, fun p => ?_, fun x => ?_,
    Distinct.nodup_merge hs.nodup_parents, Distinct.nodup_merge hs.nodup_exits⟩
  · rcases (hO o').1 ho' with h | rfl
    · exact hs.le o' h
    · exact Nat.le_of_eq (congrArg UInt32.toNat hd)
  · show p ∈ Distinct.merge w.parents [o.origin] ↔ ∃ o', O' o' ∧ o'.distance = w.distance ∧ o'.origin = p
    simp only [Distinct.mem_merge, hs.mem_parents, List.mem_singleton, hO, or_and_right, exists_or,
      exists_eq_left, hd, true_and, eq_comm (a := p)]
  · show x ∈ Distinct.merge w.exits (o.exits resolve w.node) ↔
      ∃ o', O' o' ∧ o'.distance = w.distance ∧ x ∈ o'.exits resolve w.node
    simp only [Distinct.mem_merge, hs.mem_exits, hO, or_and_right, exists_or, exists_eq_left, hd, true_and]

/-- A shorter offer puts out all earlier ones. -/
theorem of_gt (hs : SumsUp resolve O w) (hO : ∀ o', O' o' ↔ O o' ∨ o' = o)
    (hgt : o.distance.toNat < w.distance.toNat) :
    SumsUp resolve O' (((w.setExits (o.exits resolve w.node)).setDistance o.distance).setParent o.origin) := by
  have hi : ∀ o', O' o' ∧ o'.distance = o.distance ↔ o' = o := fun o' => by
    rw [hO]
    refine ⟨fun hx => ?_, fun hx => ?_⟩
    · obtain ⟨h | rfl, hd⟩ := hx
      · have := hs.le o' h
        rw [hd] at this
        exact absurd this (Nat.not_le_of_lt hgt)
      · rfl
    · subst hx
      exact ⟨.inr rfl, rfl⟩
  refine ⟨fun o' ho' => ?_, ⟨o, (hO o).2 (.inr rfl), rfl⟩, fun p => ?_, fun x => ?_, by simp [Vertex.setParent],
    Distinct.nodup_merge .nil⟩
  · rcases (hO o').1 ho' with h | rfl
    · exact Nat.le_trans (Nat.le_of_lt hgt) (hs.le o' h)
    · exact Nat.le_refl _
  · show p ∈ [o.origin] ↔ ∃ o', O' o' ∧ o'.distance = o.distance ∧ o'.origin = p
    simp only [← and_assoc, hi, exists_eq_left, List.mem_singleton, eq_comm (a := p)]
  · show x ∈ Distinct.merge [] (o.exits resolve w.node) ↔
      ∃ o', O' o' ∧ o'.distance = o.distance ∧ x ∈ o'.exits resolve w.node
    simp only [← and_assoc, hi, exists_eq_left, Distinct.mem_merge, List.not_mem_nil, false_or]

/-- **A candidate sums up every further offer.** -/
theorem accept (hs : SumsUp resolve O w) (hO : ∀ o', O' o' ↔ O o' ∨ o' = o) :
    SumsUp resolve O' (w.accept resolve o) := by
  rcases w.distance_trichotomy o with h | h | h
  · rw [Vertex.accept_of_lt h]
    exact hs.of_lt hO h
  · rw [Vertex.accept_of_eq h]
    exact hs.of_eq hO h
  · rw [Vertex.accept_of_gt h]
    exact hs.of_gt hO h

/-- Offers from vertices and offers from their labels come to the same. -/
theorem of_label (hs : SumsUp resolve O w.label)
    (hO : ∀ p v e, O ⟨p, v, e⟩ ↔ ∃ x, v = Vertex.label x ∧ O' ⟨p, x, e⟩) : SumsUp resolve O' w := by
  have hex : ∀ P : Offer → Prop, (∀ p x e, P ⟨p, Vertex.label x, e⟩ ↔ P ⟨p, x, e⟩) →
      ((∃ o, O o ∧ P o) ↔ ∃ o, O' o ∧ P o) := by
    intro P hP
    refine ⟨fun h => ?_, fun h => ?_⟩
    · obtain ⟨⟨p, v, e⟩, ho, hp⟩ := h
      obtain ⟨x, rfl, ho'⟩ := (hO p v e).1 ho
      exact ⟨_, ho', (hP p x e).1 hp⟩
    · obtain ⟨⟨p, x, e⟩, ho, hp⟩ := h
      exact ⟨_, (hO p _ e).2 ⟨x, rfl, ho⟩, (hP p x e).2 hp⟩
  refine ⟨fun o ho => ?_, ?_, fun p => ?_, fun x => ?_, hs.nodup_parents, hs.nodup_exits⟩
  · exact hs.le ⟨o.origin, o.source.label, o.edge⟩ ((hO ..).2 ⟨o.source, rfl, ho⟩)
  · exact (hex _ fun _ _ _ => Iff.rfl).1 hs.attained
  · exact (hs.mem_parents p).trans (hex _ fun _ _ _ => Iff.rfl)
  · exact (hs.mem_exits x).trans (hex _ fun _ _ _ => Iff.rfl)

end SumsUp

end LinkState
