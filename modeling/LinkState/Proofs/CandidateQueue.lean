import LinkState.CandidateQueue

/-!
# What the candidate queue holds

A queue is seen through its members and through `find?`. A queue that was built by its own
operations is `WellFormed`: the candidates ascend, and no handle stands in it twice.

* `mem_push`, `mem_reorder`: the handle gets the new entry, all others keep theirs;
* `find?_push`, `find?_reorder`: the identifiers follow the pushes only;
* `pop?_eq_some`: a pop takes the candidate of least rank and nothing else.
-/

namespace LinkState

/-- Candidates of the same rank have the same identifier. -/
theorem Candidate.id_eq_of_rank_eq {a b : Candidate} (h : a.rank = b.rank) : a.id = b.id := by
  have ha : a.id.value < 4294967296 := a.id.value_lt
  have hb : b.id.value < 4294967296 := b.id.value_lt
  have hs : UInt32.size = 4294967296 := rfl
  refine Address.ext_value ?_
  unfold rank at h
  rw [hs] at h
  omega

/-- Candidates have the same rank if their distances and identifiers are the same. -/
theorem Candidate.rank_eq_iff {a b : Candidate} : a.rank = b.rank ↔ a.distance = b.distance ∧ a.id = b.id := by
  refine ⟨fun h => ⟨?_, id_eq_of_rank_eq h⟩, fun h => by rw [rank, rank, h.1, h.2]⟩
  have hid := id_eq_of_rank_eq h
  have hs : UInt32.size = 4294967296 := rfl
  unfold rank at h
  rw [hid, hs] at h
  exact UInt32.toNat_inj.1 (by omega)

namespace CandidateQueue

/-- The candidates ascend and have a handle each. -/
structure WellFormed (q : CandidateQueue) : Prop where
  ascending : q.candidates.Pairwise (·.rank ≤ ·.rank)
  handles : (q.candidates.map (·.handle)).Nodup

/-! ## 1. Members -/

theorem mem_place {c d : Candidate} {cs : List Candidate} : d ∈ place c cs ↔ d = c ∨ d ∈ cs := by
  rw [(place_perm c cs).mem_iff, List.mem_cons]

theorem mem_without {h : Handle} {d : Candidate} {cs : List Candidate} :
    d ∈ without h cs ↔ d ∈ cs ∧ d.handle ≠ h := by
  simp [without]

theorem queued_iff {q : CandidateQueue} {h : Handle} :
    q.queued h = true ↔ ∃ c ∈ q.candidates, c.handle = h := by
  simp [queued]

/-- **A push gives the handle a new entry** and leaves all others. -/
theorem mem_push {q : CandidateQueue} {h : Handle} {id : Address} {distance : Metric} {d : Candidate} :
    d ∈ (q.push h id distance).candidates ↔ d = ⟨h, distance, id⟩ ∨ d ∈ q.candidates ∧ d.handle ≠ h := by
  simp only [push, mem_place, mem_without]

/-- **Reordering a queued handle gives it a new entry** and leaves all others. -/
theorem mem_reorder {q : CandidateQueue} {h : Handle} (hq : q.queued h = true) {id : Address}
    {distance : Metric} {d : Candidate} :
    d ∈ (q.reorder h id distance).candidates ↔ d = ⟨h, distance, id⟩ ∨ d ∈ q.candidates ∧ d.handle ≠ h := by
  simp only [reorder, hq, if_true, mem_place, mem_without]

/-! ## 2. Handles by identifier -/

/-- Without the entries of one key every other key is looked up as before. -/
theorem lookup_filter_ne (id : Address) (k : Address) (xs : List (Address × Handle)) :
    (xs.filter (·.1 != id)).lookup k = if k = id then none else xs.lookup k := by
  induction xs with
  | nil => simp
  | cons x xs ih =>
    obtain ⟨i, h⟩ := x
    by_cases hi : i = id
    · subst hi
      rw [List.filter_cons_of_neg (by simp), ih]
      split
      · rfl
      · rename_i hk
        rw [List.lookup_cons, beq_eq_false_iff_ne.2 hk]
    · rw [List.filter_cons_of_pos (by simpa using hi), List.lookup_cons, List.lookup_cons, ih]
      by_cases hk : k = i
      · subst hk
        simp [hi]
      · simp [beq_eq_false_iff_ne.2 hk]

theorem find?_push (q : CandidateQueue) (h : Handle) (id : Address) (distance : Metric) (k : Address) :
    (q.push h id distance).find? k = if k = id then some h else q.find? k := by
  simp only [find?, push, List.lookup_cons, lookup_filter_ne]
  by_cases hk : k = id
  · simp [hk]
  · simp [hk, beq_eq_false_iff_ne.2 hk]

theorem find?_reorder (q : CandidateQueue) (h : Handle) (id : Address) (distance : Metric) (k : Address) :
    (q.reorder h id distance).find? k = q.find? k := by
  unfold reorder
  split <;> rfl

/-! ## 3. Well-formed queues -/

theorem wellFormed_empty : empty.WellFormed := ⟨.nil, .nil⟩

/-- Placing a candidate among those of other handles keeps a queue in form. -/
theorem WellFormed.place_without {q : CandidateQueue} (hq : q.WellFormed) (c : Candidate)
    (handles : List (Address × Handle)) :
    WellFormed ⟨place c (without c.handle q.candidates), handles⟩ where
  ascending := pairwise_place (hq.ascending.sublist List.filter_sublist)
  handles := by
    have hp := (place_perm c (without c.handle q.candidates)).map (·.handle)
    refine hp.nodup_iff.2 ?_
    rw [List.map_cons, List.nodup_cons]
    refine ⟨fun hm => ?_, hq.handles.sublist (List.filter_sublist.map _)⟩
    obtain ⟨d, hd, he⟩ := List.mem_map.1 hm
    exact (mem_without.1 hd).2 he

theorem WellFormed.push {q : CandidateQueue} (hq : q.WellFormed) (h : Handle) (id : Address)
    (distance : Metric) : (q.push h id distance).WellFormed :=
  hq.place_without ⟨h, distance, id⟩ _

theorem WellFormed.reorder {q : CandidateQueue} (hq : q.WellFormed) (h : Handle) (id : Address)
    (distance : Metric) : (q.reorder h id distance).WellFormed := by
  unfold CandidateQueue.reorder
  split
  · exact hq.place_without ⟨h, distance, id⟩ _
  · exact hq

/-! ## 4. Pops -/

theorem pop?_eq_none {q : CandidateQueue} : q.pop? = none ↔ q.candidates = [] := by
  unfold pop?
  split
  · rename_i h
    simp [h]
  · rename_i h
    simp [h]

/-- **A pop takes the candidate of least rank**, its identifier, and nothing else. -/
theorem pop?_eq_some {q q' : CandidateQueue} (hq : q.WellFormed) {h : Handle} (hp : q.pop? = some (h, q')) :
    q'.WellFormed ∧ ∃ c ∈ q.candidates, c.handle = h ∧ (∀ d ∈ q.candidates, c.rank ≤ d.rank) ∧
      (∀ d, d ∈ q'.candidates ↔ d ∈ q.candidates ∧ d.handle ≠ h) ∧
      ∀ k, q'.find? k = if k = c.id then none else q.find? k := by
  obtain ⟨ha, hn⟩ := hq
  unfold pop? at hp
  split at hp
  · cases hp
  · rename_i c cs hc
    simp only [Option.some.injEq, Prod.mk.injEq] at hp
    obtain ⟨rfl, rfl⟩ := hp
    rw [hc] at ha hn ⊢
    rw [List.pairwise_cons] at ha
    rw [List.map_cons, List.nodup_cons] at hn
    refine ⟨⟨ha.2, hn.2⟩, c, List.mem_cons_self, rfl, fun d hd => ?_, fun d => ?_, fun k => ?_⟩
    · rcases List.mem_cons.1 hd with rfl | hd
      · exact Nat.le_refl _
      · exact ha.1 d hd
    · have hne : d ∈ cs → d.handle ≠ c.handle := fun hd he => hn.1 (he ▸ List.mem_map_of_mem hd)
      refine ⟨fun hd => ?_, fun hx => ?_⟩
      · exact ⟨List.mem_cons_of_mem _ hd, hne hd⟩
      · obtain ⟨hd, he⟩ := hx
        rcases List.mem_cons.1 hd with rfl | hd
        · exact absurd rfl he
        · exact hd
    · exact lookup_filter_ne c.id k q.handles

end CandidateQueue

end LinkState
