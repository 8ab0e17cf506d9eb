import LinkState.ShortestPath

/-!
# The order in which a run settles

A run stands, each time that it has settled a vertex, at one of its `states` (`states_run`); the
vertices settled there make the `settleOrder`, and what passes from one to the next holds of the last
(`explore_induction`). `Before order p h` says that `p` was settled before
`h`; a handle that has not been settled comes after all that have.
-/

namespace LinkState

namespace Exploration

/-- The edges out of the vertex settled last. -/
def outgoing (s : Exploration) : List Edge :=
  match s.tree.vertex? s.current with
  | some v => s.database.edges v.kind
  | none => []

/-- Relaxing follows them in turn. -/
theorem relax_eq (resolve : Resolver) (s : Exploration) : s.relax resolve = s.outgoing.foldl (relaxEdge resolve) s := by
  unfold relax outgoing
  cases s.tree.vertex? s.current <;> rfl

/-- The states of a run in which a vertex has just been settled, in turn. -/
def states (resolve : Resolver) (s : Exploration) : List Exploration :=
  match _h : (s.relax resolve).next? with
  | some s' => s :: s'.states resolve
  | none => [s]
termination_by s.remaining
decreasing_by exact Nat.lt_of_lt_of_le (next?_lt _h) (remaining_relax_le resolve s)

section Unfold

variable {resolve : Resolver} {s s' : Exploration}

theorem next?_eq_some : s.next? = some s' ↔ ∃ h q, s.queue.pop? = some (h, q) ∧ s.settle h q = s' := by
  unfold next?
  simp [Option.map_eq_some_iff, Prod.exists]

theorem explore_of_some (h : (s.relax resolve).next? = some s') : s.explore resolve = s'.explore resolve := by
  rw [explore]
  split
  · rename_i t ht
    rw [h, Option.some.injEq] at ht
    rw [ht]
  · rename_i ht
    rw [h] at ht
    cases ht

theorem explore_of_none (h : (s.relax resolve).next? = none) : s.explore resolve = s.relax resolve := by
  rw [explore]
  split
  · rename_i t ht
    rw [h] at ht
    cases ht
  · rfl

theorem states_of_some (h : (s.relax resolve).next? = some s') :
    s.states resolve = s :: s'.states resolve := by
  rw [states]
  split
  · rename_i t ht
    rw [h, Option.some.injEq] at ht
    rw [ht]
  · rename_i ht
    rw [h] at ht
    cases ht

theorem states_of_none (h : (s.relax resolve).next? = none) : s.states resolve = [s] := by
  rw [states]
  split
  · rename_i t ht
    rw [h] at ht
    cases ht
  · rfl

/-- **The states are those of the run**: it begins with the first of them, goes from each to the next
    by relaxing and settling, and ends by relaxing the last. -/
theorem states_run (resolve : Resolver) (s : Exploration) : (s.states resolve)[0]? = some s ∧
    (∀ i a b, (s.states resolve)[i]? = some a → (s.states resolve)[i + 1]? = some b →
      (a.relax resolve).next? = some b) ∧
    ∃ last, (s.states resolve).getLast? = some last ∧ (last.relax resolve).next? = none ∧
      s.explore resolve = last.relax resolve := by
  induction s using states.induct resolve with
  | case1 s s' h ih =>
    obtain ⟨hfirst, hnext, last, hlast, hend, hex⟩ := ih
    rw [states_of_some h, explore_of_some h]
    refine ⟨rfl, fun i a b ha hb => ?_, last, by rw [List.getLast?_cons, hlast, Option.getD_some], hend, hex⟩
    cases i with
    | zero =>
      cases ha
      rw [List.getElem?_cons_succ, hfirst] at hb
      cases hb
      exact h
    | succ i => exact hnext i a b ha hb
  | case2 s h =>
    rw [states_of_none h, explore_of_none h]
    refine ⟨rfl, fun i a b ha hb => ?_, s, rfl, h, rfl⟩
    cases i <;> cases hb

/-- **Induction along a run**: what passes from each of its states to the next, together with the
    vertices settled so far, holds of the last one; the run ends by relaxing that. -/
theorem explore_induction {P : List Handle → Exploration → Prop}
    (hnext : ∀ order s s', P order s → (s.relax resolve).next? = some s' → P (order ++ [s'.current]) s')
    (hs : P [s.current] s) :
    ∃ last, P ((s.states resolve).map (·.current)) last ∧ (last.relax resolve).next? = none ∧
      s.explore resolve = last.relax resolve := by
  have key : ∀ s front, P (front ++ [s.current]) s →
      ∃ last, P (front ++ (s.states resolve).map (·.current)) last ∧ (last.relax resolve).next? = none ∧
        s.explore resolve = last.relax resolve := by
    intro s
    induction s using states.induct resolve with
    | case1 s s' h ih =>
      intro front hP
      have := ih _ (hnext _ _ _ hP h)
      rw [List.append_assoc, List.singleton_append] at this
      rw [states_of_some h, explore_of_some h]
      exact this
    | case2 s h =>
      intro front hP
      rw [states_of_none h, explore_of_none h]
      exact ⟨s, hP, h, rfl⟩
  exact key s [] hs

end Unfold

end Exploration

namespace Database

/-- The handles of a shortest-path tree in the order in which its run settled them. -/
def settleOrder (db : Database) (resolve : Resolver) (root : Address) : List Handle :=
  match db.reset.rootRouter root with
  | .error _ => []
  | .ok n => ((Exploration.start db.reset n).states resolve).map (·.current)

end Database

/-! ## Before and after -/

/-- `p` stands in the order, and `h` stands behind it or does not stand there. -/
def Before (order : List Handle) (p h : Handle) : Prop := order.idxOf p < order.idxOf h

namespace Before

variable {order : List Handle} {p q h x : Handle}

theorem mem (hb : Before order p h) : p ∈ order :=
  List.idxOf_lt_length_iff.1 (Nat.lt_of_lt_of_le hb List.idxOf_le_length)

theorem irrefl : ¬ Before order p p := Nat.lt_irrefl _

theorem trans (h1 : Before order p q) (h2 : Before order q h) : Before order p h := Nat.lt_trans h1 h2

theorem ne (hb : Before order p h) : p ≠ h := fun e => irrefl (e ▸ hb)

/-- A settled handle comes before every other that is not settled. -/
theorem of_not_mem (hp : p ∈ order) (hh : h ∉ order) : Before order p h := by
  unfold Before
  rw [List.idxOf_eq_length hh]
  exact List.idxOf_lt_length_of_mem hp

/-- **Of two handles one comes first**, as soon as one of them is settled. -/
theorem total (hp : p ∈ order) (hne : p ≠ h) : Before order p h ∨ Before order h p := by
  rcases Nat.lt_trichotomy (order.idxOf p) (order.idxOf h) with hlt | heq | hgt
  · exact .inl hlt
  · refine absurd ?_ hne
    have h1 := List.idxOf_lt_length_of_mem hp
    have h2 : order.idxOf h < order.length := heq ▸ h1
    rw [← List.getElem_idxOf h1, ← List.getElem_idxOf h2]
    exact getElem_congr rfl heq h1
  · exact .inr hgt

/-- Before the first handle comes none. -/
theorem not_head (hp : order.head? = some p) : ¬ Before order h p := by
  obtain ⟨rest, rfl⟩ := List.head?_eq_some_iff.1 hp
  unfold Before
  rw [List.idxOf_cons_self]
  exact Nat.not_lt_zero _

/-- No settled handle comes after the last. -/
theorem not_last (hn : order.Nodup) (hp : order.getLast? = some p) (hh : h ∈ order) : ¬ Before order p h := by
  obtain ⟨front, rfl⟩ := List.getLast?_eq_some_iff.1 hp
  have hpf : p ∉ front := fun hm => (List.nodup_append.1 hn).2.2 p hm p List.mem_cons_self rfl
  unfold Before
  rw [List.idxOf_append, if_neg hpf, List.idxOf_cons_self]
  have := List.idxOf_lt_length_of_mem hh
  simp only [List.length_append, List.length_singleton] at this
  omega

/-- **Settling one more handle** puts it before those that are left, and changes nothing else. -/
theorem append_iff (hx : x ∉ order) :
    Before (order ++ [x]) p h ↔ Before order p h ∨ p = x ∧ h ∉ order ∧ h ≠ x := by
  have single : ∀ a, [x].idxOf a = if a = x then 0 else 1 := fun a => by
    by_cases ha : a = x
    · rw [ha, List.idxOf_cons_self, if_pos rfl]
    · simp only [List.idxOf_cons, beq_eq_false_iff_ne.2 (Ne.symm ha), List.idxOf_nil, ha, cond_false, if_false]
  unfold Before
  rw [List.idxOf_append, List.idxOf_append, single, single]
  by_cases hp : p ∈ order <;> by_cases hh : h ∈ order
  · have hne : p ≠ x := fun e => hx (e ▸ hp)
    simp [hp, hh, hne]
  · have h1 := List.idxOf_lt_length_of_mem hp
    have hne : p ≠ x := fun e => hx (e ▸ hp)
    simp only [hp, hh, if_true, if_false, List.idxOf_eq_length hh, h1, true_or, iff_true]
    omega
  · have h1 := List.idxOf_lt_length_of_mem hh
    simp only [hp, hh, if_true, if_false, List.idxOf_eq_length hp, not_true, false_and, and_false, or_false]
    omega
  · rw [if_neg hp, if_neg hh, List.idxOf_eq_length hp, List.idxOf_eq_length hh]
    by_cases hpx : p = x <;> by_cases hhx : h = x <;> simp [hpx, hhx, hh]

end Before

end LinkState
