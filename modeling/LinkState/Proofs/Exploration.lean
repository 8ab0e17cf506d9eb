import LinkState.Proofs.CandidateQueue
import LinkState.Proofs.Labelling

/-!
# The invariant of a run

A run keeps its state in four places: the labels of the tree, the candidate queue, the statuses in
the database and the vertex settled last. `Explores` ties them together: the labels are `Labelled`,
the queue holds the vertices that are not settled (`Queued`), and a status says whether its node has
a vertex and whether that is settled (`Statuses`).

* `Explores.relaxEdge`, `Explores.relax`: following edges keeps the invariant and adds them to the log;
* `Explores.settle`: so does settling the first candidate;
* `Explores.explore`: at the end every vertex is settled and every edge out of it followed.
-/

namespace LinkState

/-! ## 1. Statuses -/

/-- The statuses that go with labels and settled vertices. -/
structure Statuses (look : Handle → Option Vertex) (order : List Handle) (st : Address → Status) : Prop where
  vertex : ∀ {h v}, look h = some v → st v.id = if h ∈ order then .inTree else .candidate
  absent : ∀ {id}, (∀ h v, look h = some v → v.id ≠ id) → st id = .notExplored

theorem Database.mark_mapStatus (db : Database) (st : Address → Status) (id : Address) (x : Status) :
    (db.mapStatus fun n => st n.id).mark id x = db.mapStatus fun n => if n.id = id then x else st n.id := by
  refine Database.ext_parts ?_ rfl
  simp only [Database.mark, Database.mapStatus, List.map_map]
  exact List.map_congr_left fun n _ => rfl

namespace Statuses

variable {look look' : Handle → Option Vertex} {order : List Handle} {st : Address → Status} {h : Handle}
  {w' : Vertex}

/-- A node that is reached for the first time becomes a candidate. -/
theorem found (hs : Statuses look order st) (hh : h ∉ order) (hfree : look h = none)
    (hlook : ∀ k, look' k = if k = h then some w' else look k)
    (hnew : ∀ k v, look k = some v → v.id ≠ w'.id) :
    Statuses look' order fun id => if id = w'.id then .candidate else st id where
  vertex {k v} hk := by
    rw [hlook] at hk
    split at hk
    · rename_i hkh
      rw [← Option.some.inj hk, if_pos rfl, hkh, if_neg hh]
    · rw [if_neg (hnew k v hk)]
      exact hs.vertex hk
  absent {id} ha := by
    have hid : w'.id ≠ id := ha h w' ((hlook h).trans (if_pos rfl))
    rw [if_neg (Ne.symm hid)]
    refine hs.absent fun k v hk he => ?_
    have hkh : k ≠ h := fun hkh => by
      rw [hkh, hfree] at hk
      cases hk
    exact ha k v (by rw [hlook, if_neg hkh, hk]) he

/-- A candidate that changes its label stays one. -/
theorem write (hs : Statuses look order st) {w : Vertex} (hw : look h = some w) (hid : w'.id = w.id)
    (hlook : ∀ k, look' k = if k = h then some w' else look k) : Statuses look' order st where
  vertex {k v} hk := by
    rw [hlook] at hk
    split at hk
    · rename_i hkh
      rw [← Option.some.inj hk, hid, hkh]
      exact hs.vertex hw
    · exact hs.vertex hk
  absent {id} ha := by
    refine hs.absent fun k v hk he => ?_
    by_cases hkh : k = h
    · subst hkh
      rw [hw, Option.some.injEq] at hk
      exact ha k w' ((hlook k).trans (if_pos rfl)) (by rw [hid, hk, he])
    · exact ha k v (by rw [hlook, if_neg hkh, hk]) he

/-- A vertex that is settled is in the tree. -/
theorem settle (hs : Statuses look order st) {v : Vertex} (hv : look h = some v)
    (hdist : ∀ k w, look k = some w → w.id = v.id → k = h) :
    Statuses look (order ++ [h]) fun id => if id = v.id then .inTree else st id where
  vertex {k w} hk := by
    by_cases hid : w.id = v.id
    · rw [if_pos hid, hdist k w hk hid, if_pos (by simp)]
    · have hne : k ≠ h := fun he => by
        rw [he, hv, Option.some.injEq] at hk
        exact hid (hk ▸ rfl)
      rw [if_neg hid, hs.vertex hk]
      simp [hne]
  absent {id} ha := by
    rw [if_neg (Ne.symm (ha h v hv))]
    exact hs.absent ha

end Statuses

/-! ## 2. The queue -/

/-- **The queue holds the vertices that are not settled**, each with its distance and identifier. -/
structure Queued (look : Handle → Option Vertex) (order : List Handle) (q : CandidateQueue) : Prop where
  wellFormed : q.WellFormed
  mem_iff : ∀ c, c ∈ q.candidates ↔ c.handle ∉ order ∧ ∃ v, look c.handle = some v ∧ v.candidate c.handle = c
  find?_iff : ∀ id h, q.find? id = some h ↔ h ∉ order ∧ ∃ v, look h = some v ∧ v.id = id

namespace Queued

variable {look look' : Handle → Option Vertex} {order : List Handle} {q q' : CandidateQueue} {h : Handle}
  {w' : Vertex}

/-- One label of a vertex that is not settled is written, and the queue follows. -/
theorem write (hq : Queued look order q) (hh : h ∉ order)
    (hlook : ∀ k, look' k = if k = h then some w' else look k) (hwf : q'.WellFormed)
    (hmem : ∀ d, d ∈ q'.candidates ↔ d = w'.candidate h ∨ d ∈ q.candidates ∧ d.handle ≠ h)
    (hfind : ∀ id k, q'.find? id = some k ↔ if id = w'.id then k = h else q.find? id = some k)
    (hdist : ∀ k v, look k = some v → (v.id = w'.id ↔ k = h)) : Queued look' order q' where
  wellFormed := hwf
  mem_iff c := by
    rw [hmem, hlook, hq.mem_iff]
    by_cases hch : c.handle = h
    · rw [if_pos hch, hch]
      refine ⟨fun hx => ?_, fun hx => ?_⟩
      · rcases hx with he | ⟨_, hne⟩
        · exact ⟨hh, w', rfl, he.symm⟩
        · exact absurd rfl hne
      · obtain ⟨_, v, hv, he⟩ := hx
        rw [← Option.some.inj hv] at he
        exact .inl he.symm
    · rw [if_neg hch]
      refine ⟨fun hx => ?_, fun hc => ?_⟩
      · rcases hx with he | ⟨hc, _⟩
        · exact absurd (he ▸ rfl) hch
        · exact hc
      · exact .inr ⟨hc, hch⟩
  find?_iff id k := by
    rw [hfind, hlook]
    by_cases hid : id = w'.id
    · rw [if_pos hid]
      refine ⟨fun hx => ?_, fun hx => ?_⟩
      · subst hx
        exact ⟨hh, w', if_pos rfl, hid.symm⟩
      · obtain ⟨_, v, hv, he⟩ := hx
        split at hv
        · assumption
        · exact (hdist k v hv).1 (he.trans hid)
    · rw [if_neg hid, hq.find?_iff]
      refine and_congr_right fun _ => ?_
      by_cases hkh : k = h
      · subst hkh
        rw [if_pos rfl]
        refine iff_of_false ?_ ?_
        · intro hm
          obtain ⟨v, hv, he⟩ := hm
          exact hid (he.symm.trans ((hdist k v hv).2 rfl))
        · intro hm
          obtain ⟨v, hv, he⟩ := hm
          rw [← Option.some.inj hv] at he
          exact hid he.symm
      · rw [if_neg hkh]

/-- A vertex is queued under its own handle. -/
theorem candidate_mem (hq : Queued look order q) (hh : h ∉ order) {w : Vertex} (hw : look h = some w) :
    w.candidate h ∈ q.candidates :=
  (hq.mem_iff _).2 ⟨hh, w, hw, rfl⟩

/-- The entries of a queue that keeps the rank of a vertex. -/
theorem mem_unchanged (hq : Queued look order q) (hh : h ∉ order) {w : Vertex} (hw : look h = some w)
    (d : Candidate) : d ∈ q.candidates ↔ d = w.candidate h ∨ d ∈ q.candidates ∧ d.handle ≠ h := by
  refine ⟨fun hd => ?_, fun hx => ?_⟩
  · by_cases hdh : d.handle = h
    · obtain ⟨_, v, hv, he⟩ := (hq.mem_iff d).1 hd
      rw [hdh, hw, Option.some.injEq] at hv
      subst hv
      exact .inl (hdh ▸ he.symm)
    · exact .inr ⟨hd, hdh⟩
  · rcases hx with rfl | ⟨hd, _⟩
    · exact hq.candidate_mem hh hw
    · exact hd

/-- Settling the vertex of least rank takes its entry out of the queue. -/
theorem settle (hq : Queued look order q) (hp : q.pop? = some (h, q'))
    (hdist : ∀ {k j v w}, look k = some v → look j = some w → v.id = w.id → k = j) :
    Queued look (order ++ [h]) q' ∧ h ∉ order ∧ ∃ v, look h = some v ∧
      ∀ k w, look k = some w → k ∉ order → k ≠ h → v.rank < w.rank := by
  obtain ⟨hwf, c, hc, rfl, hleast, hmem, hfind⟩ := CandidateQueue.pop?_eq_some hq.wellFormed hp
  obtain ⟨hco, v, hv, hvc⟩ := (hq.mem_iff c).1 hc
  have hcid : c.id = v.id := by rw [← hvc]; rfl
  have hnot : ∀ k, k ∉ order ++ [c.handle] ↔ k ∉ order ∧ k ≠ c.handle := fun k => by simp
  refine ⟨⟨hwf, fun d => ?_, fun id k => ?_⟩, hco, v, hv, fun k w hk hko hkc => ?_⟩
  · rw [hmem, hq.mem_iff, hnot, and_right_comm]
  · rw [hfind, hnot]
    by_cases hid : id = c.id
    · rw [if_pos hid]
      refine iff_of_false (fun he => by cases he) ?_
      intro hm
      obtain ⟨⟨_, hkc⟩, w, hw, he⟩ := hm
      exact hkc (hdist hw hv ((he.trans hid).trans hcid))
    · rw [if_neg hid, hq.find?_iff]
      refine ⟨fun hx => ?_, fun hx => ?_⟩
      · obtain ⟨hko, w, hw, he⟩ := hx
        refine ⟨⟨hko, fun hkc => hid ?_⟩, w, hw, he⟩
        rw [hkc, hv, Option.some.injEq] at hw
        rw [← he, hcid, hw]
      · obtain ⟨⟨hko, _⟩, hw⟩ := hx
        exact ⟨hko, hw⟩
  · have hle := hleast _ (hq.candidate_mem hko hk)
    rw [← hvc, Vertex.rank_candidate, Vertex.rank_candidate] at hle
    refine Nat.lt_of_le_of_ne hle fun he => hkc ?_
    exact hdist hk hv (Candidate.id_eq_of_rank_eq (a := v.candidate k) (b := w.candidate k) he).symm

end Queued

/-! ## 3. The invariant -/

/-- **What holds while a run explores**: `order` are the vertices settled so far, `log` the edges
    followed so far, and `db` is the database before the run. -/
structure Explores (db : Database) (resolve : Resolver) (root : Address) (order : List Handle)
    (log : List (Handle × Edge)) (s : Exploration) : Prop where
  labelled : Labelled db resolve root s.tree.label? order log
  queued : Queued s.tree.label? order s.queue
  statuses : ∃ st : Address → Status, s.database = (db.mapStatus fun n => st n.id) ∧
    Statuses s.tree.label? order st
  last : order.getLast? = some s.current
  edges : ∀ {p e}, (p, e) ∈ log → ∃ v, s.tree.label? p = some v ∧ e ∈ db.edges v.kind
  complete : ∀ {p v e}, p ∈ order → p ≠ s.current → s.tree.label? p = some v → e ∈ db.edges v.kind → (p, e) ∈ log

namespace Explores

variable {db : Database} {resolve : Resolver} {root : Address} {order : List Handle}
  {log : List (Handle × Edge)} {s : Exploration}

/-! ### Following one edge -/

section RelaxEdge

variable {u : Vertex} {e : Edge}

/-- The last vertex and the labels of all settled ones are the same. -/
structure KeepsSettled (order : List Handle) (s s' : Exploration) : Prop where
  current : s'.current = s.current
  label : ∀ k ∈ order, s'.tree.label? k = s.tree.label? k

/-- A state has followed an edge as soon as its labels, queue and statuses agree and nothing that
    was settled has changed. -/
theorem followed {s' : Exploration} (hs : Explores db resolve root order log s)
    (hu : s.tree.label? s.current = some u) (he : e ∈ db.edges u.kind) (hk : KeepsSettled order s s')
    (hl : Labelled db resolve root s'.tree.label? order (log ++ [(s.current, e)]))
    (hq : Queued s'.tree.label? order s'.queue)
    (hst : ∃ st : Address → Status, s'.database = (db.mapStatus fun n => st n.id) ∧
      Statuses s'.tree.label? order st) :
    Explores db resolve root order (log ++ [(s.current, e)]) s' where
  labelled := hl
  queued := hq
  statuses := hst
  last := hk.current ▸ hs.last
  edges {p e'} hp := by
    rcases List.mem_append.1 hp with hp | hp
    · obtain ⟨v, hv, hev⟩ := hs.edges hp
      exact ⟨v, (hk.label p (hs.labelled.followed hp).1).trans hv, hev⟩
    · simp only [List.mem_singleton, Prod.mk.injEq] at hp
      obtain ⟨rfl, rfl⟩ := hp
      exact ⟨u, (hk.label _ (List.mem_of_getLast? hs.last)).trans hu, he⟩
  complete {p v e'} hp hne hv hev := by
    rw [hk.current] at hne
    rw [hk.label p hp] at hv
    exact List.mem_append_left _ (hs.complete hp hne hv hev)

/-- **A node seen for the first time** becomes a candidate. -/
theorem discover (hs : Explores db resolve root order log s) (hu : s.tree.label? s.current = some u)
    (he : e ∈ db.edges u.kind) {n : Node} (hid : n.id = e.target)
    (hnode : ∃ m, db.get? n.id = some m ∧ m.kind = n.kind)
    (hnew : ∀ k v, s.tree.label? k = some v → v.id ≠ n.id) {s' : Exploration}
    (hs' : s' = s.discover n (Offer.mk s.current u e).distance (Offer.exits resolve ⟨s.current, u, e⟩ n)) :
    KeepsSettled order s s' ∧ Explores db resolve root order (log ++ [(s.current, e)]) s' := by
  have hfree := s.tree.label?_size
  have hh : s.tree.size ∉ order := fun hm => by
    obtain ⟨v, hv⟩ := hs.labelled.settled hm
    rw [hfree] at hv
    cases hv
  have hlook : ∀ k, s'.tree.label? k =
      if k = s.tree.size then some (Vertex.found resolve n ⟨s.current, u, e⟩) else s.tree.label? k := by
    subst hs'
    exact s.tree.label?_insert _
  have hk : KeepsSettled order s s' :=
    ⟨by rw [hs']; rfl, fun k hko => Labelled.look_of_mem hh hlook hko⟩
  have hnot : ∀ k v, s.tree.label? k = some v → (v.id = n.id ↔ k = s.tree.size) := fun k v hv => by
    refine iff_of_false (hnew k v hv) fun he => ?_
    rw [he, hfree] at hv
    cases hv
  obtain ⟨st, hdb, hst⟩ := hs.statuses
  refine ⟨hk, hs.followed hu he hk (hs.labelled.follow_found hs.last hu hfree hid hnode hnew hlook) ?_
    ⟨_, ?_, hst.found hh hfree hlook hnew⟩⟩
  · subst hs'
    refine hs.queued.write hh hlook (hs.queued.wellFormed.push ..) (fun _ => CandidateQueue.mem_push)
      (fun id k => ?_) hnot
    show (s.queue.push s.tree.size n.id _).find? id = some k ↔ if id = n.id then k = s.tree.size else _
    rw [CandidateQueue.find?_push]
    split
    · exact Option.some_inj.trans eq_comm
    · exact Iff.rfl
  · rw [hs', Exploration.discover, hdb]
    exact db.mark_mapStatus st n.id .candidate

/-- What reaching a candidate writes: its label, and its entry in the queue if the offer is shorter. -/
theorem reach_eq {h : Handle} {x : Vertex} (hx : s.tree.vertex? h = some x) {o : Offer}
    (ho : o.origin = s.current) {s' : Exploration}
    (hs' : s' = s.reach h x.id o.distance (o.exits resolve x.node)) :
    s'.current = s.current ∧ s'.database = s.database ∧
      (∀ k, s'.tree.label? k = if k = h then some (x.label.accept resolve o) else s.tree.label? k) ∧
      (s'.queue = s.queue ∧ (x.label.accept resolve o).distance = x.distance ∨
        s'.queue = s.queue.reorder h x.id o.distance ∧ (x.label.accept resolve o).distance = o.distance) := by
  have hlabel := Tree.label?_of_vertex? hx
  have hmodify : ∀ (f : Vertex → Vertex), (∀ v, (f v).label = f v.label) → f x.label = x.label.accept resolve o →
      ∀ k, (s.tree.modify h f).label? k = if k = h then some (x.label.accept resolve o) else s.tree.label? k := by
    intro f hf hfx k
    rw [Tree.label?_modify _ _ _ hf]
    refine ite_congr rfl (fun hk => ?_) fun _ => rfl
    rw [hk, hlabel, Option.map_some, hfx]
  simp only [Exploration.reach, hx] at hs'
  rcases x.distance_trichotomy o with hlt | heq | hgt
  · rw [if_pos hlt] at hs'
    subst hs'
    have ha : x.label.accept resolve o = x.label := Vertex.accept_of_lt hlt
    refine ⟨rfl, rfl, fun k => ?_, .inl ⟨rfl, by rw [ha]; rfl⟩⟩
    split
    · rename_i hk
      rw [hk, hlabel, ha]
    · rfl
  · have hge : ¬ x.distance < o.distance := heq ▸ Nat.lt_irrefl _
    rw [if_neg hge, if_pos heq] at hs'
    subst hs'
    have ha : x.label.accept resolve o = _ := Vertex.accept_of_eq heq
    refine ⟨rfl, rfl, hmodify _ (fun _ => rfl) ?_, .inl ⟨rfl, by rw [ha]; rfl⟩⟩
    rw [ha, ho]
    rfl
  · have hge : ¬ x.distance < o.distance := Nat.lt_asymm hgt
    have hne : x.distance ≠ o.distance := fun e => Nat.lt_irrefl _ (e ▸ hgt)
    rw [if_neg hge, if_neg hne] at hs'
    subst hs'
    have ha : x.label.accept resolve o = _ := Vertex.accept_of_gt hgt
    refine ⟨rfl, rfl, hmodify _ (fun _ => rfl) ?_, .inr ⟨rfl, by rw [ha]; rfl⟩⟩
    rw [ha, ho]
    rfl

/-- **A candidate that is reached once more** stays one. -/
theorem reach (hs : Explores db resolve root order log s) (hu : s.tree.label? s.current = some u)
    (he : e ∈ db.edges u.kind) {h : Handle} {x : Vertex} (hx : s.tree.vertex? h = some x) (hh : h ∉ order)
    (hid : x.id = e.target) {s' : Exploration}
    (hs' : s' = s.reach h x.id (Offer.mk s.current u e).distance
      (Offer.exits resolve ⟨s.current, u, e⟩ x.node)) :
    KeepsSettled order s s' ∧ Explores db resolve root order (log ++ [(s.current, e)]) s' := by
  have hlabel := Tree.label?_of_vertex? hx
  obtain ⟨hcur, hdb', hlook, hqueue⟩ := reach_eq (o := ⟨s.current, u, e⟩) hx rfl hs'
  have hk : KeepsSettled order s s' := ⟨hcur, fun k hko => Labelled.look_of_mem hh hlook hko⟩
  have hida : (x.label.accept resolve ⟨s.current, u, e⟩).id = x.id := x.label.id_accept resolve _
  have hdist : ∀ k v, s.tree.label? k = some v →
      (v.id = (x.label.accept resolve ⟨s.current, u, e⟩).id ↔ k = h) := fun k v hv => by
    rw [hida]
    refine ⟨fun hvx => hs.labelled.distinct (w := x.label) hv hlabel hvx, fun hkh => ?_⟩
    rw [hkh, hlabel, Option.some.injEq] at hv
    rw [← hv]
    rfl
  have hcand : ∀ d : Metric, (x.label.accept resolve ⟨s.current, u, e⟩).distance = d →
      (x.label.accept resolve ⟨s.current, u, e⟩).candidate h = ⟨h, d, x.id⟩ := fun d hd => by
    rw [Vertex.candidate, hida, hd]
  obtain ⟨st, hdb, hst⟩ := hs.statuses
  refine ⟨hk, hs.followed hu he hk (hs.labelled.follow_accept hs.last hu hlabel hh hid hlook) ?_
    ⟨st, hdb'.trans hdb, hst.write hlabel hida hlook⟩⟩
  have hfind : ∀ id k, s.queue.find? id = some k ↔
      if id = (x.label.accept resolve ⟨s.current, u, e⟩).id then k = h else s.queue.find? id = some k := by
    intro id k
    split
    · rename_i hid'
      rw [hs.queued.find?_iff, hid', hida]
      refine ⟨fun hm => ?_, fun hm => ?_⟩
      · obtain ⟨_, v, hv, hvx⟩ := hm
        exact hs.labelled.distinct hv hlabel hvx
      · subst hm
        exact ⟨hh, x.label, hlabel, rfl⟩
    · exact Iff.rfl
  rcases hqueue with ⟨hq, hd⟩ | ⟨hq, hd⟩
  · rw [hq]
    refine hs.queued.write hh hlook hs.queued.wellFormed (fun d => ?_) hfind hdist
    rw [hcand _ hd]
    exact hs.queued.mem_unchanged hh hlabel d
  · rw [hq]
    have hqd : s.queue.queued h = true :=
      CandidateQueue.queued_iff.2 ⟨_, hs.queued.candidate_mem hh hlabel, rfl⟩
    refine hs.queued.write hh hlook (hs.queued.wellFormed.reorder ..) (fun d => ?_) (fun id k => ?_) hdist
    · rw [hcand _ hd]
      exact CandidateQueue.mem_reorder hqd
    · rw [CandidateQueue.find?_reorder]
      exact hfind id k

/-- **Following an edge** keeps the invariant, and every settled label. -/
theorem relaxEdge (hs : Explores db resolve root order log s) (hu : s.tree.label? s.current = some u)
    (he : e ∈ db.edges u.kind) :
    KeepsSettled order s (s.relaxEdge resolve e) ∧
      Explores db resolve root order (log ++ [(s.current, e)]) (s.relaxEdge resolve e) := by
  obtain ⟨v, hv, rfl⟩ := Tree.label?_eq_some.1 hu
  obtain ⟨n, hn⟩ := Option.isSome_iff_exists.1 (Database.isSome_get?_of_mem_edges he)
  have hid : n.id = e.target := (Database.get?_eq_some_iff.1 hn).2
  obtain ⟨st, hdb, hst⟩ := hs.statuses
  have hget : s.database.get? e.target = some (n.withStatus (st n.id)) := by
    rw [hdb, Database.get?_mapStatus, hn, Option.map_some]
  have hskip : st n.id = .inTree → s.relaxEdge resolve e = s := fun h => by
    simp only [Exploration.relaxEdge, hv, hget, Node.status_withStatus, h]
  have hreach : ∀ {k}, st n.id = .candidate → s.queue.find? n.id = some k →
      s.relaxEdge resolve e = s.reach k n.id (Offer.mk s.current v.label e).distance
        (Offer.exits resolve ⟨s.current, v.label, e⟩ (n.withStatus .candidate)) := fun h hfind => by
    simp only [Exploration.relaxEdge, hv, hget, Node.status_withStatus, Node.id_withStatus, h, hfind]
    rfl
  have hdiscover : st n.id = .notExplored →
      s.relaxEdge resolve e = s.discover (n.withStatus (st n.id)) (Offer.mk s.current v.label e).distance
        (Offer.exits resolve ⟨s.current, v.label, e⟩ (n.withStatus (st n.id))) := fun h => by
    simp only [Exploration.relaxEdge, hv, hget, Node.status_withStatus, h]
    rfl
  by_cases hnew : ∃ k w, s.tree.label? k = some w ∧ w.id = n.id
  · obtain ⟨k, w, hw, hwn⟩ := hnew
    have hstn := hst.vertex hw
    rw [hwn] at hstn
    by_cases hk : k ∈ order
    · rw [if_pos hk] at hstn
      rw [hskip hstn]
      refine ⟨⟨rfl, fun _ _ => rfl⟩, hs.followed hu he ⟨rfl, fun _ _ => rfl⟩ ?_ hs.queued hs.statuses⟩
      exact hs.labelled.follow_settled hs.last hu hw (hwn.trans hid) hk
    · rw [if_neg hk] at hstn
      have hfind : s.queue.find? n.id = some k := (hs.queued.find?_iff _ _).2 ⟨hk, w, hw, hwn⟩
      obtain ⟨x, hx, rfl⟩ := Tree.label?_eq_some.1 hw
      have hxn : x.id = n.id := hwn
      obtain ⟨m, hm, hmk⟩ := hs.labelled.node hw
      have hnm : m = n := by
        rw [hwn, hid, hn, Option.some.injEq] at hm
        exact hm.symm
      refine hs.reach hu he hx hk (hxn.trans hid) ?_
      have hids : (n.withStatus .candidate).id = x.node.id := hxn.symm
      have hkinds : (n.withStatus .candidate).kind = x.node.kind := hnm ▸ hmk
      rw [hreach hstn hfind, hxn]
      exact congrArg (s.reach k n.id _) (firstHops_congr hids hkinds ..)
  · have hnone : ∀ k w, s.tree.label? k = some w → w.id ≠ n.id := fun k w hw hwn => hnew ⟨k, w, hw, hwn⟩
    have hstn := hst.absent hnone
    refine hs.discover (n := n.withStatus (st n.id)) hu he hid ⟨n, ?_, rfl⟩ hnone (hdiscover hstn)
    rw [← hid] at hn
    exact hn

end RelaxEdge

/-! ### Following all edges of a vertex -/

theorem KeepsSettled.trans {s₁ s₂ s₃ : Exploration} (h₁ : KeepsSettled order s₁ s₂)
    (h₂ : KeepsSettled order s₂ s₃) : KeepsSettled order s₁ s₃ :=
  ⟨h₂.current.trans h₁.current, fun k hk => (h₂.label k hk).trans (h₁.label k hk)⟩

theorem foldl_relaxEdge {u : Vertex} (es : List Edge) (hes : ∀ e ∈ es, e ∈ db.edges u.kind) :
    ∀ {log : List (Handle × Edge)} {s : Exploration}, Explores db resolve root order log s →
      s.tree.label? s.current = some u →
      KeepsSettled order s (es.foldl (Exploration.relaxEdge resolve) s) ∧
        Explores db resolve root order (log ++ es.map (s.current, ·))
          (es.foldl (Exploration.relaxEdge resolve) s) := by
  induction es with
  | nil =>
    intro log s hs _
    exact ⟨⟨rfl, fun _ _ => rfl⟩, by simpa using hs⟩
  | cons e es ih =>
    intro log s hs hu
    obtain ⟨hk, hs'⟩ := hs.relaxEdge hu (hes e List.mem_cons_self)
    have hu' : (s.relaxEdge resolve e).tree.label? (s.relaxEdge resolve e).current = some u := by
      rw [hk.current, hk.label _ (List.mem_of_getLast? hs.last), hu]
    obtain ⟨hk', hs''⟩ := ih (fun e he => hes e (List.mem_cons_of_mem _ he)) hs' hu'
    refine ⟨hk.trans hk', ?_⟩
    rw [hk.current] at hs''
    simpa using hs''

/-- Every edge out of the vertex settled last has been followed. -/
def Relaxed (db : Database) (log : List (Handle × Edge)) (s : Exploration) : Prop :=
  ∀ v e, s.tree.label? s.current = some v → e ∈ db.edges v.kind → (s.current, e) ∈ log

/-- The edges out of the vertex settled last are those of its node. -/
theorem outgoing_eq (hs : Explores db resolve root order log s) {u : Vertex}
    (hu : s.tree.label? s.current = some u) : s.outgoing = db.edges u.kind := by
  obtain ⟨v, hv, rfl⟩ := Tree.label?_eq_some.1 hu
  obtain ⟨st, hdb, _⟩ := hs.statuses
  rw [Exploration.outgoing, hv, hdb]
  exact db.edges_mapStatus _ _

/-- **Relaxing** follows every edge out of the vertex settled last. -/
theorem relax (hs : Explores db resolve root order log s) :
    KeepsSettled order s (s.relax resolve) ∧
      ∃ log', Explores db resolve root order log' (s.relax resolve) ∧ Relaxed db log' (s.relax resolve) := by
  have hcur := List.mem_of_getLast? hs.last
  obtain ⟨u, hu⟩ := hs.labelled.settled hcur
  obtain ⟨hk, hs'⟩ := foldl_relaxEdge (db.edges u.kind) (fun _ he => he) hs hu
  rw [s.relax_eq resolve, hs.outgoing_eq hu]
  refine ⟨hk, _, hs', fun w e hw he => List.mem_append_right _ ?_⟩
  rw [hk.current, hk.label _ hcur, hu, Option.some.injEq] at hw
  subst hw
  rw [hk.current]
  exact List.mem_map_of_mem he

/-! ### Settling -/

/-- **Settling the first candidate** keeps the invariant and every label. -/
theorem settle (hs : Explores db resolve root order log s) (hr : Relaxed db log s) {h : Handle}
    {q : CandidateQueue} (hp : s.queue.pop? = some (h, q)) :
    h ∉ order ∧ (s.settle h q).tree.label? = s.tree.label? ∧
      Explores db resolve root (order ++ [h]) log (s.settle h q) := by
  obtain ⟨hq, hh, v, hv, hleast⟩ := hs.queued.settle hp hs.labelled.distinct
  have hlabel : (s.settle h q).tree.label? = s.tree.label? := s.tree.label?_addToParents h
  obtain ⟨st, hdb, hst⟩ := hs.statuses
  obtain ⟨x, hx, rfl⟩ := Tree.label?_eq_some.1 hv
  refine ⟨hh, hlabel, ?_⟩
  constructor
  case labelled =>
    rw [hlabel]
    exact hs.labelled.settle hh hv hleast
  case queued =>
    rw [hlabel]
    exact hq
  case statuses =>
    refine ⟨fun id => if id = x.id then .inTree else st id, ?_, ?_⟩
    · simp only [Exploration.settle, hx, hdb]
      exact db.mark_mapStatus st x.id .inTree
    · rw [hlabel]
      exact hst.settle (v := x.label) hv fun k w hw hid => hs.labelled.distinct hw hv hid
  case last => simp [Exploration.settle]
  case edges =>
    intro p e hpe
    rw [hlabel]
    exact hs.edges hpe
  case complete =>
    intro p w e hpo hne hw he
    rw [hlabel] at hw
    have hpo' : p ∈ order := (List.mem_append.1 hpo).resolve_right fun hph => hne (List.mem_singleton.1 hph)
    by_cases hpc : p = s.current
    · subst hpc
      exact hr w e hw he
    · exact hs.complete hpo' hpc hw he

theorem next? (hs : Explores db resolve root order log s) (hr : Relaxed db log s) {s' : Exploration}
    (hn : s.next? = some s') :
    s'.current ∉ order ∧ s'.tree.label? = s.tree.label? ∧
      Explores db resolve root (order ++ [s'.current]) log s' := by
  obtain ⟨h, q, hp, rfl⟩ := Exploration.next?_eq_some.1 hn
  exact hs.settle hr hp

/-- Where there is no candidate left every vertex is settled. -/
theorem mem_of_next?_eq_none (hs : Explores db resolve root order log s) (hn : s.next? = none) {h : Handle}
    {v : Vertex} (hv : s.tree.label? h = some v) : h ∈ order := by
  have hq := CandidateQueue.pop?_eq_none.1 (Option.map_eq_none_iff.1 hn)
  refine Classical.byContradiction fun hh => ?_
  have := hs.queued.candidate_mem hh hv
  rw [hq] at this
  exact absurd this List.not_mem_nil

/-! ### The whole run -/

/-- The invariant passes from one state of the run to the next. -/
theorem relax_next? (hs : Explores db resolve root order log s) {s' : Exploration}
    (hn : (s.relax resolve).next? = some s') : ∃ log', Explores db resolve root (order ++ [s'.current]) log' s' := by
  obtain ⟨_, log', hs', hr⟩ := hs.relax
  exact ⟨log', (hs'.next? hr hn).2.2⟩

/-- **At the end of a run** every vertex is settled, in the order of the run's states, and every
    edge has been followed. -/
theorem explore (hs : Explores db resolve root [s.current] log s) :
    ∃ log', Explores db resolve root ((s.states resolve).map (·.current)) log' (s.explore resolve) ∧
      (∀ h v, (s.explore resolve).tree.label? h = some v → h ∈ (s.states resolve).map (·.current)) ∧
      Relaxed db log' (s.explore resolve) := by
  obtain ⟨last, ⟨_, hlast⟩, hn, hend⟩ := Exploration.explore_induction
    (P := fun order s => ∃ log, Explores db resolve root order log s)
    (fun order s s' hP hn => by
      obtain ⟨_, hs⟩ := hP
      exact hs.relax_next? hn)
    ⟨log, hs⟩
  obtain ⟨_, log', hs', hr⟩ := hlast.relax
  rw [hend]
  exact ⟨log', hs', fun _ _ hv => hs'.mem_of_next?_eq_none hn hv, hr⟩

end Explores

end LinkState
