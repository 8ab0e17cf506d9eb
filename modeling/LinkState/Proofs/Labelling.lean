import LinkState.Proofs.Offers
import LinkState.Proofs.SettleOrder

/-!
# The labels during a run

A run is seen here through three things: the labels of the arena (`look`), the order in which
vertices were settled, and the log of the edges that were followed. `Labelled` is what holds of them
at every moment:

* a vertex stands for a node of the database, and no node has two;
* every vertex but the root sums up the offers made to it before it was settled (`SumsUp`);
* a vertex that had its label when another one was settled has the greater rank (`least`).

Two things happen in a run: an edge is followed (`follow_settled`, `follow_found`,
`follow_accept`), and a vertex of least rank is settled (`settle`).
-/

namespace LinkState

namespace Vertex

/-- The vertex as an entry of the candidate queue. -/
def candidate (v : Vertex) (h : Handle) : Candidate := ⟨h, v.distance, v.id⟩

/-- Distance and identifier as one number, as in the queue. -/
def rank (v : Vertex) : Nat := v.distance.toNat * UInt32.size + v.id.value

@[simp] theorem rank_candidate (v : Vertex) (h : Handle) : (v.candidate h).rank = v.rank := rfl

theorem distance_le_of_rank_lt {v w : Vertex} (h : v.rank < w.rank) :
    v.distance.toNat ≤ w.distance.toNat := by
  have hv : v.id.value < UInt32.size := v.id.value_lt
  have hw : w.id.value < UInt32.size := w.id.value_lt
  have hs : UInt32.size = 4294967296 := rfl
  unfold rank at h
  rw [hs] at h hv hw
  omega

theorem rank_lt_of_distance_eq {v w : Vertex} (hd : v.distance = w.distance) (hid : v.id < w.id) :
    v.rank < w.rank := by
  unfold rank
  rw [hd]
  exact Nat.add_lt_add_left hid _

/-- A parent after an offer is the new one, or an old one of an unchanged rank. -/
theorem mem_parents_accept {resolve : Resolver} {w : Vertex} {o : Offer} {p : Handle}
    (hp : p ∈ (w.accept resolve o).parents) :
    p = o.origin ∨ p ∈ w.parents ∧ (w.accept resolve o).rank = w.rank := by
  rcases w.distance_trichotomy o with h | h | h
  · rw [accept_of_lt h] at hp ⊢
    exact .inr ⟨hp, rfl⟩
  · rw [accept_of_eq h] at hp ⊢
    rcases Distinct.mem_merge.1 hp with hp | hp
    · exact .inr ⟨hp, rfl⟩
    · exact .inl (List.mem_singleton.1 hp)
  · rw [accept_of_gt h] at hp
    exact .inl (List.mem_singleton.1 hp)

end Vertex

/-- The offer was made to the node `id` before its handle `h` was settled. -/
def IsOffer (look : Handle → Option Vertex) (order : List Handle) (log : List (Handle × Edge))
    (h : Handle) (id : Address) (o : Offer) : Prop :=
  Before order o.origin h ∧ (o.origin, o.edge) ∈ log ∧ look o.origin = some o.source ∧ o.edge.target = id

/-- What holds of labels, settled vertices and followed edges throughout a run. -/
structure Labelled (db : Database) (resolve : Resolver) (root : Address) (look : Handle → Option Vertex)
    (order : List Handle) (log : List (Handle × Edge)) : Prop where
  node : ∀ {h v}, look h = some v → ∃ n, db.get? v.id = some n ∧ n.kind = v.kind
  distinct : ∀ {h k v w}, look h = some v → look k = some w → v.id = w.id → h = k
  root : ∃ v, look Tree.root = some v ∧ v.id = root ∧ v.distance = 0 ∧ v.exits = [] ∧ v.parents = []
  head : order.head? = some Tree.root
  nodup : order.Nodup
  settled : ∀ {h}, h ∈ order → ∃ v, look h = some v
  followed : ∀ {p e}, (p, e) ∈ log → p ∈ order ∧ ∃ h w, look h = some w ∧ w.id = e.target
  sumsUp : ∀ {h w}, look h = some w → h ≠ Tree.root → SumsUp resolve (IsOffer look order log h w.id) w
  least : ∀ {p q u v w}, look p = some v → look q = some w → u ∈ w.parents →
    Before order u p → Before order p q → v.rank < w.rank

namespace Labelled

variable {db : Database} {resolve : Resolver} {root : Address} {look look' : Handle → Option Vertex}
  {order : List Handle} {log : List (Handle × Edge)}

theorem root_mem (hl : Labelled db resolve root look order log) : Tree.root ∈ order :=
  List.mem_of_head? hl.head

/-! ## 1. Settling -/

/-- **Settling a vertex of least rank** keeps everything as it is. -/
theorem settle (hl : Labelled db resolve root look order log) {x : Handle} {v : Vertex} (hx : x ∉ order)
    (hv : look x = some v)
    (hleast : ∀ q w, look q = some w → q ∉ order → q ≠ x → v.rank < w.rank) :
    Labelled db resolve root look (order ++ [x]) log where
  node := hl.node
  distinct := hl.distinct
  root := hl.root
  head := by rw [List.head?_append, hl.head]; rfl
  nodup := List.nodup_append.2
    ⟨hl.nodup, by simp, fun a ha b hb e => hx (List.mem_singleton.1 hb ▸ e ▸ ha)⟩
  settled hh := by
    rcases List.mem_append.1 hh with hh | hh
    · exact hl.settled hh
    · exact ⟨v, List.mem_singleton.1 hh ▸ hv⟩
  followed hp := ⟨List.mem_append_left _ (hl.followed hp).1, (hl.followed hp).2⟩
  sumsUp hw hr := (hl.sumsUp hw hr).congr fun o => by
    unfold IsOffer
    rw [Before.append_iff hx]
    refine ⟨fun ho => ⟨ho.1.resolve_right fun he => ?_, ho.2⟩, fun ho => ⟨.inl ho.1, ho.2⟩⟩
    -- nothing has been followed out of the vertex yet
    exact hx (he.1 ▸ (hl.followed ho.2.1).1)
  least {p q u v' w} hp hq hu hup hpq := by
    rcases (Before.append_iff hx).1 hpq with hpq | ⟨rfl, hq', hne⟩
    · refine hl.least hp hq hu (((Before.append_iff hx).1 hup).resolve_right fun he => ?_) hpq
      exact he.2.1 hpq.mem
    · rw [hv, Option.some.injEq] at hp
      exact hp ▸ hleast q w hq hq' hne

/-! ## 2. Following an edge -/

section Follow

variable {cur : Handle} {u : Vertex} {e : Edge}

/-- Where one label is written that is not settled, the settled ones stay. -/
theorem look_of_mem {h k : Handle} {w' : Option Vertex} (hh : h ∉ order)
    (hlook : ∀ k, look' k = if k = h then w' else look k) (hk : k ∈ order) : look' k = look k := by
  have hne : k ≠ h := fun he => hh (he ▸ hk)
  rw [hlook, if_neg hne]

/-- An edge followed out of the last vertex is an offer to its target, if that is not settled, and
    to no other vertex. -/
theorem isOffer_follow (hl : Labelled db resolve root look order log) (hlast : order.getLast? = some cur)
    (hu : look cur = some u) (hsame : ∀ k ∈ order, look' k = look k) (h : Handle) (id : Address) (o : Offer) :
    IsOffer look' order (log ++ [(cur, e)]) h id o ↔
      IsOffer look order log h id o ∨ o = ⟨cur, u, e⟩ ∧ h ∉ order ∧ e.target = id := by
  unfold IsOffer
  refine ⟨fun hx => ?_, fun hx => ?_⟩
  · obtain ⟨hb, hm, hs, ht⟩ := hx
    rw [hsame _ hb.mem] at hs
    rcases List.mem_append.1 hm with hm | hm
    · exact .inl ⟨hb, hm, hs, ht⟩
    · obtain ⟨p, v, e'⟩ := o
      simp only [List.mem_singleton, Prod.mk.injEq] at hm hs hb ht
      obtain ⟨rfl, rfl⟩ := hm
      rw [hu, Option.some.injEq] at hs
      subst hs
      exact .inr ⟨rfl, fun hh => Before.not_last hl.nodup hlast hh hb, ht⟩
  · rcases hx with ⟨hb, hm, hs, ht⟩ | ⟨rfl, hh, ht⟩
    · exact ⟨hb, List.mem_append_left _ hm, (hsame _ hb.mem).trans hs, ht⟩
    · have hc : cur ∈ order := List.mem_of_getLast? hlast
      exact ⟨.of_not_mem hc hh, List.mem_append_right _ List.mem_cons_self, (hsame _ hc).trans hu, ht⟩

/-- An edge to a settled vertex changes nothing. -/
theorem follow_settled (hl : Labelled db resolve root look order log) (hlast : order.getLast? = some cur)
    (hu : look cur = some u) {h : Handle} {w : Vertex} (hw : look h = some w) (hid : w.id = e.target)
    (hh : h ∈ order) : Labelled db resolve root look order (log ++ [(cur, e)]) where
  node := hl.node
  distinct := hl.distinct
  root := hl.root
  head := hl.head
  nodup := hl.nodup
  settled := hl.settled
  followed hp := by
    rcases List.mem_append.1 hp with hp | hp
    · exact hl.followed hp
    · simp only [List.mem_singleton, Prod.mk.injEq] at hp
      obtain ⟨rfl, rfl⟩ := hp
      exact ⟨List.mem_of_getLast? hlast, h, w, hw, hid⟩
  sumsUp {k w'} hw' hr := (hl.sumsUp hw' hr).congr fun o => by
    rw [hl.isOffer_follow hlast hu fun _ _ => rfl]
    refine or_iff_left fun ⟨_, hk, ht⟩ => hk ?_
    exact hl.distinct hw hw' (hid.trans ht) ▸ hh
  least := hl.least

/-- An edge to a vertex that is not settled changes the label of that vertex only. -/
theorem follow_open (hl : Labelled db resolve root look order log) (hlast : order.getLast? = some cur)
    (hu : look cur = some u) {h : Handle} {w' : Vertex} (hh : h ∉ order)
    (hlook : ∀ k, look' k = if k = h then some w' else look k) (hid : w'.id = e.target)
    (hnode : ∃ n, db.get? w'.id = some n ∧ n.kind = w'.kind)
    (hdist : ∀ k v, look k = some v → (v.id = w'.id ↔ k = h))
    (hsum : SumsUp resolve (IsOffer look' order (log ++ [(cur, e)]) h w'.id) w')
    (hparents : ∀ p ∈ w'.parents, p = cur ∨ ∃ w, look h = some w ∧ p ∈ w.parents ∧ w'.rank = w.rank) :
    Labelled db resolve root look' order (log ++ [(cur, e)]) := by
  have hsame : ∀ k ∈ order, look' k = look k := fun _ => look_of_mem hh hlook
  have hself : look' h = some w' := by rw [hlook, if_pos rfl]
  have hcases : ∀ {k v}, look' k = some v → k = h ∧ v = w' ∨ k ≠ h ∧ look k = some v := fun {k v} hk => by
    rw [hlook] at hk
    split at hk
    · rename_i hkh
      exact .inl ⟨hkh, (Option.some.inj hk).symm⟩
    · rename_i hkh
      exact .inr ⟨hkh, hk⟩
  have hkeep : ∀ {k v}, look k = some v → ∃ w, look' k = some w ∧ w.id = v.id := fun {k v} hk => by
    by_cases hkh : k = h
    · exact ⟨w', hkh ▸ hself, ((hdist k v hk).2 hkh).symm⟩
    · exact ⟨v, by rw [hlook, if_neg hkh, hk], rfl⟩
  refine ⟨?_, ?_, ?_, hl.head, hl.nodup, ?_, ?_, ?_, ?_⟩
  · intro k v hk
    rcases hcases hk with ⟨_, rfl⟩ | ⟨_, hk⟩
    · exact hnode
    · exact hl.node hk
  · intro k j v w hk hj hvw
    rcases hcases hk with ⟨rfl, rfl⟩ | ⟨_, hk⟩ <;> rcases hcases hj with ⟨rfl, rfl⟩ | ⟨_, hj⟩
    · rfl
    · exact ((hdist j w hj).1 hvw.symm).symm
    · exact (hdist k v hk).1 hvw
    · exact hl.distinct hk hj hvw
  · obtain ⟨v, hv, hrest⟩ := hl.root
    exact ⟨v, (hsame _ hl.root_mem).trans hv, hrest⟩
  · intro k hk
    rw [hsame k hk]
    exact hl.settled hk
  · intro p e' hp
    rcases List.mem_append.1 hp with hp | hp
    · obtain ⟨hpo, k, v, hv, ht⟩ := hl.followed hp
      obtain ⟨w, hw, hwv⟩ := hkeep hv
      exact ⟨hpo, k, w, hw, hwv.trans ht⟩
    · simp only [List.mem_singleton, Prod.mk.injEq] at hp
      obtain ⟨rfl, rfl⟩ := hp
      exact ⟨List.mem_of_getLast? hlast, h, w', hself, hid⟩
  · intro k w hk hr
    rcases hcases hk with ⟨rfl, rfl⟩ | ⟨hkh, hk⟩
    · exact hsum
    · refine (hl.sumsUp hk hr).congr fun o => ?_
      rw [hl.isOffer_follow hlast hu hsame]
      refine or_iff_left fun ⟨_, _, ht⟩ => hkh ?_
      exact (hdist k w hk).1 (ht.symm.trans hid.symm)
  · intro p q z v w hp hq hz hzp hpq
    -- a vertex that comes before another one is settled, so it has its old label
    have hp' : look p = some v := (hsame p hpq.mem).symm.trans hp
    rcases hcases hq with ⟨rfl, rfl⟩ | ⟨_, hq⟩
    · rcases hparents z hz with rfl | ⟨w, hw, hzw, hrank⟩
      · exact absurd hzp (Before.not_last hl.nodup hlast hpq.mem)
      · rw [hrank]
        exact hl.least hp' hw hzw hzp hpq
    · exact hl.least hp' hq hz hzp hpq

/-- **A node that is reached for the first time** takes the offer as it is. -/
theorem follow_found (hl : Labelled db resolve root look order log) (hlast : order.getLast? = some cur)
    (hu : look cur = some u) {h : Handle} {n : Node} (hfree : look h = none) (hid : n.id = e.target)
    (hnode : ∃ m, db.get? n.id = some m ∧ m.kind = n.kind)
    (hnew : ∀ k v, look k = some v → v.id ≠ n.id)
    (hlook : ∀ k, look' k = if k = h then some (Vertex.found resolve n ⟨cur, u, e⟩) else look k) :
    Labelled db resolve root look' order (log ++ [(cur, e)]) := by
  have hh : h ∉ order := fun hm => by
    obtain ⟨v, hv⟩ := hl.settled hm
    rw [hfree] at hv
    cases hv
  refine hl.follow_open hlast hu hh hlook hid hnode (fun k v hk => ?_) (.found fun o => ?_) fun p hp => ?_
  · refine iff_of_false (hnew k v hk) fun he => ?_
    rw [he, hfree] at hk
    cases hk
  · rw [hl.isOffer_follow hlast hu fun _ => look_of_mem hh hlook]
    refine ⟨fun hx => ?_, fun ho => ?_⟩
    · rcases hx with ⟨_, hm, _, ht⟩ | ⟨ho, _, _⟩
      · obtain ⟨_, k, v, hk, hkt⟩ := hl.followed hm
        exact absurd (hkt.trans ht) (hnew k v hk)
      · exact ho
    · exact .inr ⟨ho, hh, hid.symm⟩
  · exact .inl (List.mem_singleton.1 hp)

/-- **A candidate** takes the offer beside or in place of its earlier ones. -/
theorem follow_accept (hl : Labelled db resolve root look order log) (hlast : order.getLast? = some cur)
    (hu : look cur = some u) {h : Handle} {w : Vertex} (hw : look h = some w) (hh : h ∉ order)
    (hid : w.id = e.target)
    (hlook : ∀ k, look' k = if k = h then some (w.accept resolve ⟨cur, u, e⟩) else look k) :
    Labelled db resolve root look' order (log ++ [(cur, e)]) := by
  have hr : h ≠ Tree.root := fun he => hh (he ▸ hl.root_mem)
  have hida : (w.accept resolve ⟨cur, u, e⟩).id = w.id := w.id_accept resolve _
  refine hl.follow_open hlast hu hh hlook (hida.trans hid) ?_ (fun k v hk => ?_) ?_ fun p hp => ?_
  · obtain ⟨n, hn, hk⟩ := hl.node hw
    rw [hida, Vertex.kind_accept]
    exact ⟨n, hn, hk⟩
  · rw [hida]
    refine ⟨fun hv => hl.distinct hk hw hv, fun he => ?_⟩
    rw [he, hw, Option.some.injEq] at hk
    rw [hk]
  · rw [hida]
    refine (hl.sumsUp hw hr).accept fun o => ?_
    rw [hl.isOffer_follow hlast hu fun _ => look_of_mem hh hlook]
    exact or_congr_right ⟨fun ho => ho.1, fun ho => ⟨ho, hh, hid.symm⟩⟩
  · rcases Vertex.mem_parents_accept hp with hp | ⟨hp, hrank⟩
    · exact .inl hp
    · exact .inr ⟨w, hw, hp, hrank⟩

end Follow

/-! ## 3. The start -/

/-- A root alone, settled, from which no edge has been followed. -/
theorem start {v : Vertex} (hv : ∃ n, db.get? v.id = some n ∧ n.kind = v.kind) (hd : v.distance = 0)
    (hx : v.exits = []) (hnil : v.parents = []) :
    Labelled db resolve v.id (fun h => if h = Tree.root then some v else none) [Tree.root] [] where
  node {h w} hw := by
    split at hw
    · rw [← Option.some.inj hw]
      exact hv
    · cases hw
  distinct {h k w x} hw hx _ := by
    split at hw
    · split at hx
      · rename_i h1 h2
        rw [h1, h2]
      · cases hx
    · cases hw
  root := ⟨v, if_pos rfl, rfl, hd, hx, hnil⟩
  head := rfl
  nodup := by simp
  settled hh := ⟨v, if_pos (List.mem_singleton.1 hh)⟩
  followed hp := absurd hp List.not_mem_nil
  sumsUp {h w} hw hr := by
    rw [if_neg hr] at hw
    cases hw
  least {p q u v' w} hp hq hu _ _ := by
    split at hq
    · rw [← Option.some.inj hq, hnil] at hu
      exact absurd hu List.not_mem_nil
    · cases hq

end Labelled

end LinkState
