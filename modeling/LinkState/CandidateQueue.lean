import LinkState.Vertex

/-!
# The candidate queue

Candidates are the vertices that a run has come upon and not yet settled. Least distance comes
first, and of equal distances the least identifier.

The queue keeps two things. The `candidates` hold one entry a handle, in ascending order of their
rank. The `handles` say which handle was last pushed under an identifier; a pop takes out the
identifier of the entry that it takes, and `reorder` leaves them alone.
-/

namespace LinkState

structure Candidate where
  handle : Handle
  distance : Metric
  id : Address
deriving DecidableEq

/-- Distance and identifier as one number, the distance in the higher half. -/
def Candidate.rank (c : Candidate) : Nat := c.distance.toNat * UInt32.size + c.id.value

/-- **The rank compares distances first and identifiers second.** -/
theorem Candidate.rank_lt_iff {a b : Candidate} :
    a.rank < b.rank ↔ a.distance < b.distance ∨ a.distance = b.distance ∧ a.id < b.id := by
  have ha : a.id.value < 4294967296 := a.id.value_lt
  have hb : b.id.value < 4294967296 := b.id.value_lt
  rw [UInt32.lt_iff_toNat_lt, ← UInt32.toNat_inj, Address.lt_iff]
  have hs : UInt32.size = 4294967296 := rfl
  unfold rank
  rw [hs]
  omega

structure CandidateQueue where
  candidates : List Candidate
  handles : List (Address × Handle)

namespace CandidateQueue

def empty : CandidateQueue := ⟨[], []⟩

def size (q : CandidateQueue) : Nat := q.candidates.length

def isEmpty (q : CandidateQueue) : Bool := q.candidates.isEmpty

/-- Puts a candidate behind all of smaller or equal rank. -/
def place (c : Candidate) : List Candidate → List Candidate
  | [] => [c]
  | d :: ds => if c.rank < d.rank then c :: d :: ds else d :: place c ds

/-- The candidates but the one under a handle. -/
def without (h : Handle) (cs : List Candidate) : List Candidate := cs.filter (·.handle != h)

def queued (q : CandidateQueue) (h : Handle) : Bool := q.candidates.any (·.handle == h)

/-- Queues a handle, or gives it a new rank if it is queued. -/
def push (q : CandidateQueue) (h : Handle) (id : Address) (distance : Metric) : CandidateQueue :=
  ⟨place ⟨h, distance, id⟩ (without h q.candidates), (id, h) :: q.handles.filter (·.1 != id)⟩

/-- Takes out the candidate of least rank. -/
def pop? (q : CandidateQueue) : Option (Handle × CandidateQueue) :=
  match q.candidates with
  | [] => none
  | c :: cs => some (c.handle, ⟨cs, q.handles.filter (·.1 != c.id)⟩)

/-- The handle last pushed under an identifier, until that identifier is popped. -/
def find? (q : CandidateQueue) (id : Address) : Option Handle := q.handles.lookup id

/-- Gives a queued handle a new rank; a handle that is not queued stays so. -/
def reorder (q : CandidateQueue) (h : Handle) (id : Address) (distance : Metric) : CandidateQueue :=
  if q.queued h then { q with candidates := place ⟨h, distance, id⟩ (without h q.candidates) } else q

/-! ## Lemmas -/

theorem place_perm (c : Candidate) (cs : List Candidate) : (place c cs).Perm (c :: cs) := by
  induction cs with
  | nil => exact .refl _
  | cons d ds ih =>
    unfold place
    split
    · exact .refl _
    · exact (ih.cons d).trans (.swap c d ds)

@[simp] theorem length_place (c : Candidate) (cs : List Candidate) : (place c cs).length = cs.length + 1 :=
  (place_perm c cs).length_eq

/-- **Placing keeps the candidates in ascending order of rank.** -/
theorem pairwise_place {c : Candidate} {cs : List Candidate} (h : cs.Pairwise (·.rank ≤ ·.rank)) :
    (place c cs).Pairwise (·.rank ≤ ·.rank) := by
  induction cs with
  | nil => simp [place]
  | cons d ds ih =>
    have hd := List.pairwise_cons.1 h
    unfold place
    split
    · rename_i hlt
      refine List.pairwise_cons.2 ⟨fun k hk => ?_, h⟩
      rcases List.mem_cons.1 hk with rfl | hk
      · exact Nat.le_of_lt hlt
      · exact Nat.le_trans (Nat.le_of_lt hlt) (hd.1 k hk)
    · rename_i hge
      refine List.pairwise_cons.2 ⟨fun k hk => ?_, ih hd.2⟩
      rcases List.mem_cons.1 ((place_perm c ds).mem_iff.1 hk) with rfl | hk
      · exact Nat.le_of_not_lt hge
      · exact hd.1 k hk

theorem size_push_le (q : CandidateQueue) (h : Handle) (id : Address) (d : Metric) :
    (q.push h id d).size ≤ q.size + 1 := by
  simp only [push, size, length_place, without]
  exact Nat.succ_le_succ (List.length_filter_le _ _)

theorem size_reorder_le (q : CandidateQueue) (h : Handle) (id : Address) (d : Metric) :
    (q.reorder h id d).size ≤ q.size := by
  unfold reorder
  split
  · rename_i hq
    simp only [size, length_place, without]
    have hlt : (q.candidates.filter (·.handle != h)).length < q.candidates.length := by
      obtain ⟨c, hc, he⟩ := List.any_eq_true.1 hq
      exact List.length_filter_lt_length_iff_exists.2 ⟨c, hc, by simpa using he⟩
    omega
  · exact Nat.le_refl _

theorem size_pop? {q q' : CandidateQueue} {h : Handle} (hq : q.pop? = some (h, q')) :
    q'.size + 1 = q.size := by
  unfold pop? at hq
  split at hq
  · cases hq
  · rename_i c cs hc
    simp only [Option.some.injEq, Prod.mk.injEq] at hq
    obtain ⟨_, rfl⟩ := hq
    simp [size, hc]

end CandidateQueue

end LinkState
