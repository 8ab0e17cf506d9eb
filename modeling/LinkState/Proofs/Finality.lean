import LinkState.Proofs.Bookkeeping

/-!
# Settled for good

Edges that are followed later still write into the arena, through handles looked up by identifier,
and settling writes children into vertices that were settled long before. What a run has found out
about a settled vertex stays all the same.

* `Tree.childrenOf_addChildTo`: a new child stands behind the earlier ones;
* `Moment.Sound.keeps_next`: a step keeps the settled vertices but for a new last child, which is the
  vertex that it settles;
* `Moment.Keeps.trans`, `Moment.Sound.keeps`: so does a run, with all that were settled on the way;
* `Database.ComesTo.ascends`: distances never fall in the order of settling, since they never fall in
  the finished tree and a settled vertex already has its distance there.
-/

namespace LinkState

/-! ## 1. What stays of a vertex -/

/-- **Nothing but children has joined**: `v'` is the vertex `v` at a later moment, and its new
    children stand behind the earlier ones and are among `later`. -/
structure Vertex.StaysIn (v v' : Vertex) (later : List Handle) : Prop where
  id : v'.id = v.id
  distance : v'.distance = v.distance
  exits : v'.exits = v.exits
  parents : v'.parents = v.parents
  children : ∃ more, v'.children = v.children ++ more ∧ ∀ c ∈ more, c ∈ later

/-- **The later moment has kept what was settled**: `later` are the handles popped in between, and
    none of them was settled before. -/
structure Moment.Keeps (m m' : Moment) (later : List Handle) : Prop where
  popped : m'.popped = m.popped ++ later
  fresh : ∀ c ∈ later, c ∉ m.settled
  vertex : ∀ h ∈ m.settled, ∃ v v', m.state.tree.vertex? h = some v ∧ m'.state.tree.vertex? h = some v' ∧
    v.StaysIn v' later

/-- **Distances have not fallen**: of two settled vertices the one settled earlier is no further away. -/
def Moment.Ascends (m : Moment) : Prop :=
  m.settled.Pairwise fun p h => ∃ v w, m.state.tree.vertex? p = some v ∧ m.state.tree.vertex? h = some w ∧
    v.distance ≤ w.distance

namespace Vertex.StaysIn

variable {v v₁ v₂ : Vertex} {l₁ l₂ : List Handle}

/-- A vertex whose label is the same has at most new children. -/
theorem of_label (hl : v₁.label = v.label) (hc : ∃ more, v₁.children = v.children ++ more ∧ ∀ c ∈ more, c ∈ l₁) :
    v.StaysIn v₁ l₁ where
  id := (congrArg Vertex.id hl :)
  distance := (congrArg Vertex.distance hl :)
  exits := (congrArg Vertex.exits hl :)
  parents := (congrArg Vertex.parents hl :)
  children := hc

theorem trans (h₁ : v.StaysIn v₁ l₁) (h₂ : v₁.StaysIn v₂ l₂) : v.StaysIn v₂ (l₁ ++ l₂) where
  id := h₂.id.trans h₁.id
  distance := h₂.distance.trans h₁.distance
  exits := h₂.exits.trans h₁.exits
  parents := h₂.parents.trans h₁.parents
  children := by
    obtain ⟨a, ha, hal⟩ := h₁.children
    obtain ⟨b, hb, hbl⟩ := h₂.children
    refine ⟨a ++ b, by rw [hb, ha, List.append_assoc], fun c hc => ?_⟩
    rcases List.mem_append.1 hc with hc | hc
    · exact List.mem_append_left _ (hal c hc)
    · exact List.mem_append_right _ (hbl c hc)

end Vertex.StaysIn

/-- What is added stands last, or stood there before. -/
theorem Distinct.exists_add_eq (xs : List Handle) (x : Handle) :
    ∃ more, add xs x = xs ++ more ∧ ∀ d ∈ more, d = x := by
  by_cases hx : x ∈ xs
  · exact ⟨[], by rw [add, if_pos hx, List.append_nil], fun _ hd => absurd hd List.not_mem_nil⟩
  · exact ⟨[x], by rw [add, if_neg hx], fun _ hd => List.mem_singleton.1 hd⟩

/-- **A new child stands behind the earlier ones**, and every other vertex has the children it had. -/
theorem Tree.childrenOf_addChildTo (c h : Handle) : ∀ (ps : List Handle) (t : Tree),
    ∃ more, (addChildTo c ps t).2.childrenOf h = t.childrenOf h ++ more ∧ ∀ d ∈ more, d = c
  | [], t => ⟨[], (List.append_nil _).symm, fun _ hd => absurd hd List.not_mem_nil⟩
  | p :: ps, t => by
    unfold addChildTo
    split
    · exact ⟨[], (List.append_nil _).symm, fun _ hd => absurd hd List.not_mem_nil⟩
    · rename_i v hv
      obtain ⟨more, hmore, hall⟩ := childrenOf_addChildTo c h ps (t.modify p (·.addChild c))
      rw [childrenOf_addChild (vertex?_lt hv)] at hmore
      by_cases hp : h = p
      · obtain ⟨first, hfirst, hfirst'⟩ := Distinct.exists_add_eq (t.childrenOf h) c
        rw [if_pos hp, hfirst, List.append_assoc] at hmore
        exact ⟨first ++ more, hmore, fun d hd => (List.mem_append.1 hd).elim (hfirst' d) (hall d)⟩
      · rw [if_neg hp] at hmore
        exact ⟨more, hmore, hall⟩

/-! ## 2. One step, and a run -/

namespace Moment

variable {db : Database} {resolve : Resolver} {root : Address} {log : List (Handle × Edge)} {m m' m₁ m₂ : Moment}
  {l₁ l₂ : List Handle}

theorem Keeps.trans (h₁ : m.Keeps m₁ l₁) (h₂ : m₁.Keeps m₂ l₂) : m.Keeps m₂ (l₁ ++ l₂) := by
  have hsub : ∀ h ∈ m.settled, h ∈ m₁.settled := fun h hh => by
    rw [settled, h₁.popped]
    exact List.mem_append_left l₁ hh
  refine ⟨by rw [h₂.popped, h₁.popped, List.append_assoc], fun c hc hm => ?_, fun h hh => ?_⟩
  · rcases List.mem_append.1 hc with hc | hc
    · exact h₁.fresh c hc hm
    · exact h₂.fresh c hc (hsub c hm)
  · obtain ⟨v, v₁, hv, hv₁, hstay₁⟩ := h₁.vertex h hh
    obtain ⟨w, v₂, hw, hv₂, hstay₂⟩ := h₂.vertex h (hsub h hh)
    rw [hv₁, Option.some.injEq] at hw
    subst hw
    exact ⟨v, v₂, hv, hv₂, hstay₁.trans hstay₂⟩

/-- Where labels stay and children join, settled vertices are kept. -/
theorem Sound.keeps_of (hm : m.Sound db resolve root log) (hpopped : m'.popped = m.popped ++ l₁)
    (hfresh : ∀ c ∈ l₁, c ∉ m.settled)
    (hlabel : ∀ h ∈ m.settled, m'.state.tree.label? h = m.state.tree.label? h)
    (hchildren : ∀ h, ∃ more, m'.state.tree.childrenOf h = m.state.tree.childrenOf h ++ more ∧ ∀ c ∈ more, c ∈ l₁) :
    m.Keeps m' l₁ := by
  refine ⟨hpopped, hfresh, fun h hh => ?_⟩
  obtain ⟨w, hw⟩ := hm.explores.labelled.settled hh
  obtain ⟨v, hv, rfl⟩ := Tree.label?_eq_some.1 hw
  obtain ⟨v', hv', hl⟩ := Tree.label?_eq_some.1 ((hlabel h hh).trans hw)
  refine ⟨v, v', hv, hv', .of_label hl ?_⟩
  rw [← Tree.childrenOf_of_vertex? hv, ← Tree.childrenOf_of_vertex? hv']
  exact hchildren h

/-- **A step keeps what was settled.** -/
theorem Sound.keeps_next (hm : m.Sound db resolve root log) (hstep : Next resolve m m') :
    ∃ later, m.Keeps m' later := by
  obtain ⟨_, hlabel⟩ := hm.next hstep
  cases hstep with
  | follow popped e es s =>
    refine ⟨[], hm.keeps_of (List.append_nil _).symm (fun _ hc => absurd hc List.not_mem_nil) hlabel fun h => ?_⟩
    exact ⟨[], by rw [List.append_nil, s.childrenOf_relaxEdge resolve e], fun _ hc => absurd hc List.not_mem_nil⟩
  | pop popped s h q hp =>
    obtain ⟨_, hh, w, hw, _⟩ := hm.explores.queued.settle hp hm.explores.labelled.distinct
    obtain ⟨v, hv, _⟩ := Tree.label?_eq_some.1 hw
    refine ⟨[h], hm.keeps_of rfl (fun c hc => List.mem_singleton.1 hc ▸ hh) hlabel fun k => ?_⟩
    have hadd : (s.settle h q).tree = (Tree.addChildTo h v.parents s.tree).2 := by
      rw [Exploration.settle, Tree.addToParents, hv]
    obtain ⟨more, hmore, hall⟩ := Tree.childrenOf_addChildTo h k v.parents s.tree
    exact ⟨more, hadd ▸ hmore, fun c hc => List.mem_singleton.2 (hall c hc)⟩

/-- **A run keeps what was settled.** -/
theorem Sound.keeps (hm : m.Sound db resolve root log) (h : Later resolve m m') : ∃ later, m.Keeps m' later := by
  induction h with
  | refl =>
    exact ⟨[], hm.keeps_of (List.append_nil _).symm (fun _ hc => absurd hc List.not_mem_nil) (fun _ _ => rfl)
      fun h => ⟨[], (List.append_nil _).symm, fun _ hc => absurd hc List.not_mem_nil⟩⟩
  | tail hlater hstep ih =>
    obtain ⟨l₁, h₁⟩ := ih
    obtain ⟨_, hsound⟩ := hm.later hlater
    obtain ⟨l₂, h₂⟩ := hsound.keeps_next hstep
    exact ⟨l₁ ++ l₂, h₁.trans h₂⟩

end Moment

/-! ## 3. Distances -/

/-- In an order without repetition what stands earlier comes before. -/
theorem Before.pairwise {order : List Handle} (hn : order.Nodup) : order.Pairwise (Before order) := by
  refine List.pairwise_iff_getElem.2 fun i j hi hj hij => ?_
  unfold Before
  rwa [hn.idxOf_getElem, hn.idxOf_getElem]

namespace Database

variable {db : Database} {resolve : Resolver} {root : Address} {n : Node} {m last : Moment}

theorem EndsAt.explored (hend : db.EndsAt resolve root last) :
    Explored db resolve root last.state.tree last.settled := by
  obtain ⟨n, hn, hk⟩ := exists_router_of_run hend.answer
  obtain ⟨t, db', hrun, ht, _⟩ := db.exists_explored resolve hn hk
  rw [hend.answer, Prod.mk.injEq, Except.ok.injEq] at hrun
  rw [hrun.1, ← hend.order]
  exact ht

/-- **Distances never fall in the order of settling.** -/
theorem ComesTo.ascends (hm : db.ComesTo resolve root m) (hend : db.EndsAt resolve root last) : m.Ascends := by
  obtain ⟨_, hsound⟩ := hm.sound
  obtain ⟨later, hkeeps⟩ := hsound.keeps (hend.later hm)
  have hsettled : last.settled = m.settled ++ later := congrArg (Tree.root :: ·) hkeeps.popped
  have hbefore := Before.pairwise hend.explored.nodup
  rw [hsettled] at hbefore
  refine (List.pairwise_append.1 hbefore).1.imp_of_mem fun {p h} hp hh hb => ?_
  obtain ⟨v, v', hv, hv', hstay⟩ := hkeeps.vertex p hp
  obtain ⟨w, w', hw, hw', hstay'⟩ := hkeeps.vertex h hh
  refine ⟨v, w, hv, hw, ?_⟩
  rw [← hsettled] at hb
  rw [← hstay.distance, ← hstay'.distance]
  exact hend.explored.distance_le_of_before hv' h w' hw' hb

/-- **Settling is monotone and final.** In the run of a router distances never fall in the order of
    settling, at whatever moment; and between two moments, the last one included, a settled vertex
    stays as it is but for children that are settled in between. -/
theorem settled_stays (db : Database) (resolve : Resolver) (hn : db.get? root = some n)
    (hk : n.kind.isRouter = true) :
    ∃ last, db.EndsAt resolve root last ∧
      (∀ m, db.ComesTo resolve root m → m.Ascends ∧ Moment.Later resolve m last) ∧
      ∀ m m', db.ComesTo resolve root m → Moment.Later resolve m m' → ∃ later, m.Keeps m' later := by
  obtain ⟨last, hend⟩ := db.exists_endsAt resolve hn hk
  refine ⟨last, hend, fun m hm => ⟨hm.ascends hend, hend.later hm⟩, fun m m' hm hlater => ?_⟩
  obtain ⟨_, hsound⟩ := hm.sound
  exact hsound.keeps hlater

/-- The run settles at distance 0, at the cost of the network's edges, which is none, and at the
    limit. -/
theorem irregular_settled_stays :
    ∃ n, irregular.get? (.ofOctets 10 0 0 1) = some n ∧ n.kind.isRouter = true ∧
      ∃ last, irregular.EndsAt InterfaceTable.empty.resolve (.ofOctets 10 0 0 1) last ∧
        (last.settled.map fun h => (last.state.tree.vertex? h).map (·.distance)) =
          [some 0, some 0, some 3, some 3, some 4294967290, some .limit] ∧
        (∀ m, irregular.ComesTo InterfaceTable.empty.resolve (.ofOctets 10 0 0 1) m →
          m.Ascends ∧ Moment.Later InterfaceTable.empty.resolve m last) ∧
        ∀ m m', irregular.ComesTo InterfaceTable.empty.resolve (.ofOctets 10 0 0 1) m →
          Moment.Later InterfaceTable.empty.resolve m m' → ∃ later, m.Keeps m' later := by
  obtain ⟨n, hn, hk⟩ : ∃ n, irregular.get? (.ofOctets 10 0 0 1) = some n ∧ n.kind.isRouter = true := ⟨_, rfl, rfl⟩
  have hdistances : (irregular.shortestPathTree InterfaceTable.empty.resolve (.ofOctets 10 0 0 1)).1.toOption.map
      (fun t => (irregular.settleOrder InterfaceTable.empty.resolve (.ofOctets 10 0 0 1)).map
        fun h => (t.vertex? h).map (·.distance)) =
        some [some 0, some 0, some 3, some 3, some 4294967290, some .limit] := by
    decide +kernel
  obtain ⟨last, hend, hascend, hkeep⟩ := irregular.settled_stays InterfaceTable.empty.resolve hn hk
  rw [hend.answer, hend.order] at hdistances
  exact ⟨n, hn, hk, last, hend, Option.some.inj hdistances, hascend, hkeep⟩

end Database

end LinkState
