import Mathlib.Data.Finmap
import LinkState.Proofs.CandidateQueue

/-!
# The queue as a priority map

What a queue is to hold can be told from its operations and the handles that its pops have answered: a
push queues a handle, a pop takes out the handle that it answers, and a reorder speaks to a handle that
is queued. `PriorityMap` keeps this account, one `Standing` for each queued handle; it knows nothing of
how candidates are ordered, nor of the queue's own table of identifiers. `Observed.run` lets a queue and
its account go through the same operations.

* `Mirrors.perform`: after every operation the candidates are the account, entry by entry;
* `Refines`: so the size, the pops and a whole `drain` of the queue can be read off the account, if no
  two queued handles have the same rank;
* `FindsQueued.perform`: the table of identifiers keeps up with it as long as every push brings a new
  handle under a new identifier and every reorder repeats the identifier of the push (`Admits`). It
  would not otherwise: a pop takes the identifier of the last rank out of the table, and a reorder never
  writes there.
-/

namespace LinkState

/-! ## 1. The account -/

/-- What was last said of a queued handle: its rank, and the identifier that it was pushed under. -/
structure Standing where
  distance : Metric
  id : Address
  pushedAs : Address
deriving DecidableEq

/-- The entry of a handle with this standing. -/
def Standing.candidate (s : Standing) (h : Handle) : Candidate := ⟨h, s.distance, s.id⟩

/-- The queued handles and their standing. -/
abbrev PriorityMap := Finmap fun _ : Handle => Standing

namespace CandidateQueue

inductive Operation where
  | push (h : Handle) (id : Address) (distance : Metric)
  | pop
  | reorder (h : Handle) (id : Address) (distance : Metric)
  | find (id : Address)
deriving DecidableEq

/-- The answer to an operation, and the queue after it. -/
def perform (q : CandidateQueue) : Operation → Option Handle × CandidateQueue
  | .push h id distance => (none, q.push h id distance)
  | .pop =>
    match q.pop? with
    | some (h, q') => (some h, q')
    | none => (none, q)
  | .reorder h id distance => (none, q.reorder h id distance)
  | .find id => (q.find? id, q)

/-- The handles in the order in which they are popped when nothing else is done. -/
def drain (q : CandidateQueue) : List Handle :=
  match _hp : q.pop? with
  | none => []
  | some (h, q') => h :: q'.drain
termination_by q.size
decreasing_by
  have := size_pop? _hp
  omega

/-- Draining takes the candidates as they stand. -/
theorem drain_eq (q : CandidateQueue) : q.drain = q.candidates.map (·.handle) := by
  fun_induction drain q with
  | case1 q hp => rw [pop?_eq_none.1 hp, List.map_nil]
  | case2 q h q' hp ih =>
    unfold pop? at hp
    split at hp
    · cases hp
    · rename_i c cs hc
      cases hp
      rw [ih, hc, List.map_cons]

end CandidateQueue

namespace PriorityMap

open CandidateQueue (Operation)

/-- Enters an operation and the handle that was answered. -/
def record (m : PriorityMap) : Operation → Option Handle → PriorityMap
  | .push h id distance, _ => m.insert h ⟨distance, id, id⟩
  | .pop, some h => m.erase h
  | .pop, none => m
  | .reorder h id distance, _ =>
    match m.lookup h with
    | some s => m.insert h { s with distance, id }
    | none => m
  | .find _, _ => m

/-- Distance and identifier, as they were last given to a handle. -/
def rank? (m : PriorityMap) (h : Handle) : Option (Metric × Address) :=
  (m.lookup h).map fun s => (s.distance, s.id)

/-- The identifier that a handle was pushed under. -/
def pushedAs? (m : PriorityMap) (h : Handle) : Option Address := (m.lookup h).map (·.pushedAs)

/-- No two queued handles have the same distance and identifier. -/
def Apart (m : PriorityMap) : Prop := ∀ h ∈ m.keys, ∀ k ∈ m.keys, m.rank? h = m.rank? k → h = k

instance (m : PriorityMap) : Decidable m.Apart :=
  inferInstanceAs (Decidable (∀ h ∈ m.keys, ∀ k ∈ m.keys, m.rank? h = m.rank? k → h = k))

/-- Both are queued, and the first one is nearer, or as near and of smaller identifier. -/
def Precedes (m : PriorityMap) (h k : Handle) : Prop :=
  ∃ s t, m.lookup h = some s ∧ m.lookup k = some t ∧
    (s.distance < t.distance ∨ s.distance = t.distance ∧ s.id < t.id)

/-- The handle precedes all others. -/
def IsLeast (m : PriorityMap) (h : Handle) : Prop := h ∈ m ∧ ∀ k ∈ m, k ≠ h → m.Precedes h k

/-- An operation keeps identifiers and handles in step: a push brings both anew, and a reorder
    repeats the identifier of the push. -/
def Admits (m : PriorityMap) : Operation → Prop
  | .push h id _ => h ∉ m ∧ ∀ k ∈ m.keys, m.pushedAs? k ≠ some id
  | .reorder h id _ => h ∈ m → m.pushedAs? h = some id
  | .pop | .find _ => True

instance (m : PriorityMap) : ∀ op, Decidable (m.Admits op)
  | .push h id _ => inferInstanceAs (Decidable (h ∉ m ∧ ∀ k ∈ m.keys, m.pushedAs? k ≠ some id))
  | .reorder h id _ => inferInstanceAs (Decidable (h ∈ m → m.pushedAs? h = some id))
  | .pop | .find _ => inferInstanceAs (Decidable True)

theorem lookup_insert_eq (m : PriorityMap) (h k : Handle) (s : Standing) :
    (m.insert h s).lookup k = if k = h then some s else m.lookup k := by
  split
  · rename_i hk
    rw [hk, Finmap.lookup_insert]
  · rename_i hk
    exact Finmap.lookup_insert_of_ne m hk

theorem lookup_erase_eq (m : PriorityMap) (h k : Handle) :
    (m.erase h).lookup k = if k = h then none else m.lookup k := by
  split
  · rename_i hk
    rw [hk, Finmap.lookup_erase]
  · rename_i hk
    exact Finmap.lookup_erase_ne hk

theorem pushedAs?_insert (m : PriorityMap) (h k : Handle) (s : Standing) :
    pushedAs? (m.insert h s) k = if k = h then some s.pushedAs else m.pushedAs? k := by
  rw [pushedAs?, lookup_insert_eq]
  split <;> rfl

theorem pushedAs?_erase (m : PriorityMap) (h k : Handle) :
    pushedAs? (m.erase h) k = if k = h then none else m.pushedAs? k := by
  rw [pushedAs?, lookup_erase_eq]
  split <;> rfl

theorem mem_of_pushedAs? {m : PriorityMap} {h : Handle} {id : Address} (he : m.pushedAs? h = some id) : h ∈ m := by
  obtain ⟨s, hs, _⟩ := Option.map_eq_some_iff.1 he
  exact Finmap.mem_of_lookup_eq_some hs

theorem record_reorder_of_some {m : PriorityMap} {h : Handle} {s : Standing} (hs : m.lookup h = some s)
    (id : Address) (distance : Metric) (answer : Option Handle) :
    m.record (.reorder h id distance) answer = m.insert h { s with distance, id } := by
  simp only [record, hs]

theorem record_reorder_of_none {m : PriorityMap} {h : Handle} (hs : m.lookup h = none)
    (id : Address) (distance : Metric) (answer : Option Handle) :
    m.record (.reorder h id distance) answer = m := by
  simp only [record, hs]

end PriorityMap

/-- A queue and the account of what was done to it. -/
structure Observed where
  queue : CandidateQueue
  map : PriorityMap

namespace Observed

open CandidateQueue (Operation)

def empty : Observed := ⟨.empty, ∅⟩

def perform (o : Observed) (op : Operation) : Observed :=
  ⟨(o.queue.perform op).2, o.map.record op (o.queue.perform op).1⟩

/-- The queue and the account after the operations, from an empty queue. -/
def run (ops : List Operation) : Observed := ops.foldl perform empty

/-! ## 2. The candidates are the account -/

/-- One entry for each queued handle, with the rank last given to it, and none for any other. -/
def HoldsEntries (o : Observed) : Prop :=
  ∀ h, o.queue.candidates.filter (·.handle == h) = ((o.map.lookup h).map (·.candidate h)).toList

/-- The candidates are in order, and they are the entries of the account. -/
structure Mirrors (o : Observed) : Prop where
  wellFormed : o.queue.WellFormed
  mem_iff : ∀ c, c ∈ o.queue.candidates ↔ ∃ s, o.map.lookup c.handle = some s ∧ s.candidate c.handle = c

namespace Mirrors

variable {o : Observed} {q : CandidateQueue} {h : Handle}

theorem mem_of_lookup (ho : o.Mirrors) {s : Standing} (hs : o.map.lookup h = some s) :
    s.candidate h ∈ o.queue.candidates :=
  (ho.mem_iff _).2 ⟨s, hs, rfl⟩

/-- The queue calls those handles queued that the account does. -/
theorem queued_iff (ho : o.Mirrors) : o.queue.queued h = true ↔ h ∈ o.map := by
  rw [CandidateQueue.queued_iff, Finmap.mem_iff]
  constructor
  · rintro ⟨c, hc, rfl⟩
    obtain ⟨s, hs, _⟩ := (ho.mem_iff c).1 hc
    exact ⟨s, hs⟩
  · rintro ⟨s, hs⟩
    exact ⟨s.candidate h, ho.mem_of_lookup hs, rfl⟩

/-- Reordering a handle that is not queued changes nothing. -/
theorem reorder_of_not_mem (ho : o.Mirrors) (hh : h ∉ o.map) (id : Address) (distance : Metric) :
    o.queue.reorder h id distance = o.queue :=
  if_neg fun hq => hh (ho.queued_iff.1 hq)

/-- A new entry in place of any other of its handle. -/
theorem insert (ho : o.Mirrors) (hq : q.WellFormed) (s : Standing)
    (hmem : ∀ d, d ∈ q.candidates ↔ d = s.candidate h ∨ d ∈ o.queue.candidates ∧ d.handle ≠ h) :
    Mirrors ⟨q, o.map.insert h s⟩ := by
  refine ⟨hq, fun d => ?_⟩
  rw [hmem, PriorityMap.lookup_insert_eq]
  by_cases hd : d.handle = h
  · rw [if_pos hd, hd]
    constructor
    · rintro (hds | ⟨_, hne⟩)
      · exact ⟨s, rfl, hds.symm⟩
      · exact absurd rfl hne
    · rintro ⟨t, ht, htd⟩
      cases ht
      exact .inl htd.symm
  · rw [if_neg hd, ho.mem_iff]
    constructor
    · rintro (rfl | ⟨hd', _⟩)
      · exact absurd rfl hd
      · exact hd'
    · exact fun hd' => .inr ⟨hd', hd⟩

/-- An entry is taken out. -/
theorem erase (ho : o.Mirrors) (hq : q.WellFormed)
    (hmem : ∀ d, d ∈ q.candidates ↔ d ∈ o.queue.candidates ∧ d.handle ≠ h) : Mirrors ⟨q, o.map.erase h⟩ := by
  refine ⟨hq, fun d => ?_⟩
  rw [hmem, PriorityMap.lookup_erase_eq, ho.mem_iff]
  by_cases hd : d.handle = h
  · simp [hd]
  · simp [hd]

/-- **Every operation** keeps queue and account together. -/
theorem perform (ho : o.Mirrors) (op : Operation) : (o.perform op).Mirrors := by
  cases op with
  | push h id distance =>
    exact ho.insert (ho.wellFormed.push h id distance) ⟨distance, id, id⟩ fun _ => CandidateQueue.mem_push
  | pop =>
    unfold Observed.perform CandidateQueue.perform
    cases hp : o.queue.pop? with
    | none => exact ho
    | some popped =>
      obtain ⟨h, q⟩ := popped
      obtain ⟨hq, c, _, _, _, hmem, _⟩ := CandidateQueue.pop?_eq_some ho.wellFormed hp
      exact ho.erase hq hmem
  | reorder h id distance =>
    show Mirrors ⟨o.queue.reorder h id distance, o.map.record (.reorder h id distance) none⟩
    cases hs : o.map.lookup h with
    | some s =>
      have hqueued : o.queue.queued h = true := ho.queued_iff.2 (Finmap.mem_of_lookup_eq_some hs)
      rw [PriorityMap.record_reorder_of_some hs]
      exact ho.insert (ho.wellFormed.reorder h id distance) { s with distance, id }
        fun _ => CandidateQueue.mem_reorder hqueued
    | none =>
      rw [PriorityMap.record_reorder_of_none hs, ho.reorder_of_not_mem (Finmap.lookup_eq_none.1 hs)]
      exact ho
  | find id => exact ho

end Mirrors

theorem mirrors_empty : empty.Mirrors :=
  ⟨CandidateQueue.wellFormed_empty, fun c => by simp [empty, CandidateQueue.empty]⟩

theorem run_append (ops : List Operation) (op : Operation) : run (ops ++ [op]) = (run ops).perform op := by
  simp [run]

/-- **At every moment** the candidates are the account. -/
theorem mirrors_run (ops : List Operation) : (run ops).Mirrors := by
  induction ops using List.reverseRecOn with
  | nil => exact mirrors_empty
  | append_singleton ops op ih =>
    rw [run_append]
    exact ih.perform op

/-! ## 3. What the account tells about the queue -/

/-- **The queue is the priority map** that the account describes. -/
structure Refines (o : Observed) : Prop where
  entries : o.HoldsEntries
  size : o.queue.size = o.map.keys.card
  reorder : ∀ h, h ∉ o.map → ∀ id distance, o.queue.reorder h id distance = o.queue
  pop_eq_none_iff : o.queue.pop? = none ↔ o.map = ∅
  /-- A pop answers the handle of least distance and identifier and takes out its entry only. -/
  pop : ∀ h q, o.queue.pop? = some (h, q) → o.map.IsLeast h ∧ HoldsEntries ⟨q, o.map.erase h⟩
  mem_drain : ∀ h, h ∈ o.queue.drain ↔ h ∈ o.map
  drain : o.queue.drain.Pairwise o.map.Precedes

namespace Mirrors

variable {o : Observed}

theorem holdsEntries (ho : o.Mirrors) : o.HoldsEntries := by
  intro h
  cases hs : o.map.lookup h with
  | none =>
    refine List.filter_eq_nil_iff.2 fun c hc he => ?_
    obtain ⟨s, hc', _⟩ := (ho.mem_iff c).1 hc
    rw [beq_iff_eq.1 he, hs] at hc'
    cases hc'
  | some s =>
    refine Distinct.eq_singleton ((List.Nodup.of_map _ ho.wellFormed.handles).filter _) fun c => ?_
    rw [List.mem_filter, beq_iff_eq]
    constructor
    · rintro ⟨hc, rfl⟩
      obtain ⟨t, ht, htc⟩ := (ho.mem_iff c).1 hc
      rw [hs, Option.some.injEq] at ht
      exact ht ▸ htc.symm
    · rintro rfl
      exact ⟨ho.mem_of_lookup hs, rfl⟩

theorem size_eq (ho : o.Mirrors) : o.queue.size = o.map.keys.card := by
  have hkeys : o.map.keys = (o.queue.candidates.map (·.handle)).toFinset := by
    ext h
    rw [Finmap.mem_keys, List.mem_toFinset, List.mem_map, ← ho.queued_iff, CandidateQueue.queued_iff]
  rw [hkeys, List.toFinset_card_of_nodup ho.wellFormed.handles, List.length_map]
  rfl

theorem pop_eq_none_iff (ho : o.Mirrors) : o.queue.pop? = none ↔ o.map = ∅ := by
  rw [CandidateQueue.pop?_eq_none]
  constructor
  · intro hnil
    refine Finmap.ext_lookup fun h => ?_
    rw [Finmap.lookup_empty, Finmap.lookup_eq_none]
    intro hh
    obtain ⟨c, hc, _⟩ := CandidateQueue.queued_iff.1 (ho.queued_iff.2 hh)
    rw [hnil] at hc
    cases hc
  · intro hempty
    refine List.eq_nil_iff_forall_not_mem.2 fun c hc => ?_
    obtain ⟨s, hs, _⟩ := (ho.mem_iff c).1 hc
    rw [hempty, Finmap.lookup_empty] at hs
    cases hs

/-- Candidates of smaller rank precede. -/
theorem precedes (ho : o.Mirrors) {c d : Candidate} (hc : c ∈ o.queue.candidates) (hd : d ∈ o.queue.candidates)
    (hlt : c.rank < d.rank) : o.map.Precedes c.handle d.handle := by
  obtain ⟨s, hs, hsc⟩ := (ho.mem_iff c).1 hc
  obtain ⟨t, ht, htd⟩ := (ho.mem_iff d).1 hd
  rw [← hsc, ← htd, Candidate.rank_lt_iff] at hlt
  exact ⟨s, t, hs, ht, hlt⟩

/-- Where ranks are apart, so are those of the candidates. -/
theorem rank_ne (ho : o.Mirrors) (ha : o.map.Apart) {c d : Candidate} (hc : c ∈ o.queue.candidates)
    (hd : d ∈ o.queue.candidates) (hne : c.handle ≠ d.handle) : c.rank ≠ d.rank := by
  intro he
  obtain ⟨hdistance, hid⟩ := Candidate.rank_eq_iff.1 he
  obtain ⟨s, hs, hsc⟩ := (ho.mem_iff c).1 hc
  obtain ⟨t, ht, htd⟩ := (ho.mem_iff d).1 hd
  rw [← hsc, ← htd] at hdistance hid
  refine hne (ha _ (Finmap.mem_keys.2 (Finmap.mem_of_lookup_eq_some hs)) _
    (Finmap.mem_keys.2 (Finmap.mem_of_lookup_eq_some ht)) ?_)
  rw [PriorityMap.rank?, PriorityMap.rank?, hs, ht]
  exact congrArg some (Prod.ext hdistance hid)

/-- **A pop answers the least handle.** -/
theorem isLeast_of_pop (ho : o.Mirrors) (ha : o.map.Apart) {h : Handle} {q : CandidateQueue}
    (hp : o.queue.pop? = some (h, q)) : o.map.IsLeast h := by
  obtain ⟨_, c, hc, rfl, hleast, _⟩ := CandidateQueue.pop?_eq_some ho.wellFormed hp
  refine ⟨ho.queued_iff.1 (CandidateQueue.queued_iff.2 ⟨c, hc, rfl⟩), fun k hk hne => ?_⟩
  obtain ⟨d, hd, rfl⟩ := CandidateQueue.queued_iff.1 (ho.queued_iff.2 hk)
  exact ho.precedes hc hd (Nat.lt_of_le_of_ne (hleast d hd) (ho.rank_ne ha hc hd hne.symm))

/-- **Draining follows the order** of distance and identifier. -/
theorem pairwise_drain (ho : o.Mirrors) (ha : o.map.Apart) : o.queue.drain.Pairwise o.map.Precedes := by
  rw [CandidateQueue.drain_eq, List.pairwise_map]
  have hne := List.pairwise_map.1 ho.wellFormed.handles
  refine List.Pairwise.imp_of_mem (fun hc hd hcd => ?_) (ho.wellFormed.ascending.and hne)
  exact ho.precedes hc hd (Nat.lt_of_le_of_ne hcd.1 (ho.rank_ne ha hc hd hcd.2))

theorem mem_drain (ho : o.Mirrors) (h : Handle) : h ∈ o.queue.drain ↔ h ∈ o.map := by
  rw [CandidateQueue.drain_eq, List.mem_map, ← ho.queued_iff, CandidateQueue.queued_iff]

theorem refines (ho : o.Mirrors) (ha : o.map.Apart) : o.Refines where
  entries := ho.holdsEntries
  size := ho.size_eq
  reorder _ hh := ho.reorder_of_not_mem hh
  pop_eq_none_iff := ho.pop_eq_none_iff
  pop h q hp := by
    obtain ⟨hq, c, _, _, _, hmem, _⟩ := CandidateQueue.pop?_eq_some ho.wellFormed hp
    exact ⟨ho.isLeast_of_pop ha hp, (ho.erase hq hmem).holdsEntries⟩
  mem_drain := ho.mem_drain
  drain := ho.pairwise_drain ha

end Mirrors

/-! ## 4. The table of identifiers -/

/-- The table knows every queued handle by the identifier of its push, and no other; and the ranks
    repeat those identifiers. -/
structure FindsQueued (o : Observed) : Prop where
  find?_iff : ∀ id h, o.queue.find? id = some h ↔ o.map.pushedAs? h = some id
  id_eq : ∀ h s, o.map.lookup h = some s → s.id = s.pushedAs

namespace FindsQueued

variable {o : Observed} {h : Handle} {id : Address}

/-- A new handle under a new identifier. -/
theorem push (hf : o.FindsQueued) (hh : h ∉ o.map) (hid : ∀ k ∈ o.map.keys, o.map.pushedAs? k ≠ some id)
    (distance : Metric) : (o.perform (.push h id distance)).FindsQueued where
  find?_iff i k := by
    show (o.queue.push h id distance).find? i = some k ↔
      PriorityMap.pushedAs? (o.map.insert h ⟨distance, id, id⟩) k = some i
    rw [CandidateQueue.find?_push, PriorityMap.pushedAs?_insert]
    by_cases hi : i = id <;> by_cases hk : k = h
    · rw [if_pos hi, if_pos hk, hi, hk]
      exact iff_of_true rfl rfl
    · rw [if_pos hi, if_neg hk, hi]
      refine iff_of_false (fun e => hk (Option.some.inj e).symm) fun he => ?_
      exact hid k (Finmap.mem_keys.2 (PriorityMap.mem_of_pushedAs? he)) he
    · rw [if_neg hi, if_pos hk, hf.find?_iff, hk]
      refine iff_of_false (fun he => hh (PriorityMap.mem_of_pushedAs? he)) fun e => ?_
      exact hi (Option.some.inj e).symm
    · rw [if_neg hi, if_neg hk, hf.find?_iff]
  id_eq k s hs := by
    rw [Observed.perform, PriorityMap.record, PriorityMap.lookup_insert_eq] at hs
    split at hs
    · cases hs
      rfl
    · exact hf.id_eq k s hs

/-- The identifier of the least entry is that of its push, so it is the one to take out. -/
theorem pop (hf : o.FindsQueued) (ho : o.Mirrors) : (o.perform .pop).FindsQueued := by
  unfold Observed.perform CandidateQueue.perform
  cases hp : o.queue.pop? with
  | none => exact hf
  | some popped =>
    obtain ⟨h, q⟩ := popped
    obtain ⟨_, c, hc, rfl, _, _, hfind⟩ := CandidateQueue.pop?_eq_some ho.wellFormed hp
    obtain ⟨s, hs, hsc⟩ := (ho.mem_iff c).1 hc
    have hpushed : o.map.pushedAs? c.handle = some c.id := by
      rw [PriorityMap.pushedAs?, hs, ← hsc]
      exact congrArg some (hf.id_eq _ s hs).symm
    constructor
    case find?_iff =>
      intro i k
      show q.find? i = some k ↔ PriorityMap.pushedAs? (o.map.erase c.handle) k = some i
      rw [hfind, PriorityMap.pushedAs?_erase]
      by_cases hk : k = c.handle
      · rw [if_pos hk, hk]
        refine iff_of_false (fun he => ?_) nofun
        split at he
        · cases he
        · rename_i hi
          rw [hf.find?_iff, hpushed] at he
          exact hi (Option.some.inj he).symm
      · rw [if_neg hk]
        split
        · rename_i hi
          refine iff_of_false nofun fun he => hk ?_
          rw [← hf.find?_iff, hi, (hf.find?_iff _ _).2 hpushed] at he
          exact (Option.some.inj he).symm
        · exact hf.find?_iff i k
    case id_eq =>
      intro k t ht
      show t.id = t.pushedAs
      rw [PriorityMap.record, PriorityMap.lookup_erase_eq] at ht
      split at ht
      · cases ht
      · exact hf.id_eq k t ht

/-- A rank that repeats the identifier of the push. -/
theorem reorder (hf : o.FindsQueued) (hid : h ∈ o.map → o.map.pushedAs? h = some id) (distance : Metric) :
    (o.perform (.reorder h id distance)).FindsQueued := by
  show FindsQueued ⟨o.queue.reorder h id distance, o.map.record (.reorder h id distance) none⟩
  cases hs : o.map.lookup h with
  | none =>
    rw [PriorityMap.record_reorder_of_none hs]
    exact ⟨fun i k => by rw [CandidateQueue.find?_reorder, hf.find?_iff], hf.id_eq⟩
  | some s =>
    have hpushed := hid (Finmap.mem_of_lookup_eq_some hs)
    rw [PriorityMap.pushedAs?, hs, Option.map_some, Option.some.injEq] at hpushed
    rw [PriorityMap.record_reorder_of_some hs]
    constructor
    case find?_iff =>
      intro i k
      rw [CandidateQueue.find?_reorder, hf.find?_iff, PriorityMap.pushedAs?_insert]
      split
      · rename_i hk
        rw [hk, PriorityMap.pushedAs?, hs, Option.map_some]
      · exact Iff.rfl
    case id_eq =>
      intro k t ht
      rw [PriorityMap.lookup_insert_eq] at ht
      split at ht
      · cases ht
        exact hpushed.symm
      · exact hf.id_eq k t ht

/-- **Every operation that keeps identifiers and handles in step** keeps the table in step. -/
theorem perform (hf : o.FindsQueued) (ho : o.Mirrors) (op : Operation) (ha : o.map.Admits op) :
    (o.perform op).FindsQueued := by
  cases op with
  | push h id distance => exact hf.push ha.1 ha.2 distance
  | pop => exact hf.pop ho
  | reorder h id distance => exact hf.reorder ha distance
  | find id => exact hf

end FindsQueued

theorem findsQueued_empty : empty.FindsQueued := by
  refine ⟨fun id h => ?_, fun h s hs => ?_⟩
  · exact iff_of_false nofun fun he => Finmap.notMem_empty (PriorityMap.mem_of_pushedAs? he)
  · rw [empty, Finmap.lookup_empty] at hs
    cases hs

/-- **The table at every moment**, if every operation so far kept in step. -/
theorem findsQueued_run (ops : List Operation)
    (ha : ∀ n (hn : n < ops.length), (run (ops.take n)).map.Admits ops[n]) : (run ops).FindsQueued := by
  induction ops using List.reverseRecOn with
  | nil => exact findsQueued_empty
  | append_singleton ops op ih =>
    rw [run_append]
    refine (ih fun n hn => ?_).perform (mirrors_run ops) op ?_
    · have hn' : n < (ops ++ [op]).length := by simp; omega
      have := ha n hn'
      rwa [List.take_append_of_le_length (Nat.le_of_lt hn), List.getElem_append_left hn] at this
    · have := ha ops.length (by simp)
      simpa using this

/-- **The candidate queue is a priority map.** After any operations on an empty queue, where no two
    queued handles have the same distance and identifier, it has one entry for each queued handle and
    pops the least of them; and an identifier finds the handle that is queued under it, if handles and
    identifiers were kept in step. -/
theorem queue_refinesPriorityMap (ops : List Operation) (ha : (run ops).map.Apart) :
    (run ops).Refines ∧
      ((∀ n (hn : n < ops.length), (run (ops.take n)).map.Admits ops[n]) →
        ∀ id h, (run ops).queue.find? id = some h ↔ (run ops).map.pushedAs? h = some id) :=
  ⟨(mirrors_run ops).refines ha, fun hin => (findsQueued_run ops hin).find?_iff⟩

/-- A handle that comes nearer, one that moves away, a reorder of one that was never pushed, and a
    handle that is popped and pushed once more. -/
def churn : List Operation :=
  [.push 0 (.ofOctets 10 0 0 1) 30, .push 1 (.ofOctets 10 0 0 2) 10, .reorder 0 (.ofOctets 10 0 0 1) 5,
    .reorder 1 (.ofOctets 10 0 0 2) 40, .reorder 7 (.ofOctets 10 0 0 9) 1, .find (.ofOctets 10 0 0 1), .pop,
    .push 2 (.ofOctets 10 0 0 3) 50, .push 0 (.ofOctets 10 0 0 1) 40]

/-- The two at the same distance come in the order of their identifiers. -/
theorem churn_refinesPriorityMap :
    (run churn).map.Apart ∧ (∀ n (hn : n < churn.length), (run (churn.take n)).map.Admits churn[n]) ∧
      (run churn).Refines ∧ (run churn).queue.drain = [0, 1, 2] ∧
      (run churn).map.pushedAs? 1 = some (.ofOctets 10 0 0 2) ∧
      (run churn).queue.find? (.ofOctets 10 0 0 2) = some 1 := by
  have hapart : (run churn).map.Apart := by decide +kernel
  have hadmits : ∀ n (hn : n < churn.length), (run (churn.take n)).map.Admits churn[n] := by decide +kernel
  have hpushed : (run churn).map.pushedAs? 1 = some (.ofOctets 10 0 0 2) := by decide +kernel
  have hdrain : (run churn).queue.drain = [0, 1, 2] := by
    rw [CandidateQueue.drain_eq]
    decide +kernel
  obtain ⟨hrefines, hfind⟩ := queue_refinesPriorityMap churn hapart
  exact ⟨hapart, hadmits, hrefines, hdrain, hpushed, (hfind hadmits _ _).2 hpushed⟩

end Observed

end LinkState
