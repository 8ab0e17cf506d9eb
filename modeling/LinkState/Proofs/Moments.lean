import Mathlib.Logic.Relation
import LinkState.Proofs.Children

/-!
# The moments of a run

A run alternates between two kinds of step: it follows one edge out of the vertex settled last, or,
when no edge lies ahead, takes the first candidate out of the queue and settles it. A `Moment` is
what lies between two such steps, and `Moment.Next` is one step, so that a run is a chain of steps
from its start (`Database.ComesTo`).

* `Moment.Next.unique`: a moment has one next moment at most, so that of two moments of a run one
  comes later than the other (`Moment.later_or_later`);
* `Moment.exists_later_opening`, `Moment.exists_later_explore`: the chain comes to every state of the run
  in which a vertex has just been settled, and to the state that `explore` answers, where it ends;
* `Database.exists_endsAt`: a run of a router ends, in the tree of `shortestPathTree`, with the
  vertices popped in the `settleOrder`;
* `Database.ComesTo.sound`: the invariant of the exploration holds at every moment, also between two
  edges of one vertex.
-/

namespace LinkState

/-! ## 1. Steps -/

/-- What lies between two steps of a run. -/
structure Moment where
  /-- The handles taken out of the queue so far, in turn. -/
  popped : List Handle
  /-- The edges out of the vertex settled last that are still to be followed. -/
  ahead : List Edge
  state : Exploration

namespace Moment

/-- The handles settled so far: the root and what was popped. -/
def settled (m : Moment) : List Handle := Tree.root :: m.popped

/-- A vertex has just been settled, and all its edges lie ahead: so each turn of a run begins. -/
def opening (popped : List Handle) (s : Exploration) : Moment := ⟨popped, s.outgoing, s⟩

/-- **One step of a run**: an edge is followed, or the first candidate is settled. -/
inductive Next (resolve : Resolver) : Moment → Moment → Prop where
  | follow (popped : List Handle) (e : Edge) (es : List Edge) (s : Exploration) :
      Next resolve ⟨popped, e :: es, s⟩ ⟨popped, es, s.relaxEdge resolve e⟩
  | pop (popped : List Handle) (s : Exploration) (h : Handle) (q : CandidateQueue)
      (hp : s.queue.pop? = some (h, q)) :
      Next resolve ⟨popped, [], s⟩ (opening (popped ++ [h]) (s.settle h q))

/-- Steps in turn, or none at all. -/
def Later (resolve : Resolver) : Moment → Moment → Prop := Relation.ReflTransGen (Next resolve)

variable {resolve : Resolver} {m m' m₁ m₂ : Moment}

/-- **A moment has one next moment at most.** -/
theorem Next.unique (h₁ : Next resolve m m₁) (h₂ : Next resolve m m₂) : m₁ = m₂ := by
  cases h₁ with
  | follow =>
    cases h₂ with
    | follow => rfl
  | pop popped s h q hp =>
    cases h₂ with
    | pop _ _ h' q' hp' =>
      rw [hp, Option.some.injEq, Prod.mk.injEq] at hp'
      rw [hp'.1, hp'.2]

/-- **Of two moments of a run one comes later.** -/
theorem later_or_later (h₁ : Later resolve m m₁) (h₂ : Later resolve m m₂) :
    Later resolve m₁ m₂ ∨ Later resolve m₂ m₁ :=
  Relation.ReflTransGen.total_of_right_unique (fun _ _ _ => Next.unique) h₁ h₂

/-- A moment from which no step leads is the last. -/
theorem Later.of_stuck (h₁ : Later resolve m m₁) (h₂ : Later resolve m m₂)
    (hstuck : ∀ m', ¬ Next resolve m₂ m') : Later resolve m₁ m₂ := by
  rcases later_or_later h₁ h₂ with h | h
  · exact h
  · rcases Relation.ReflTransGen.cases_head h with rfl | ⟨m', hm', _⟩
    · exact .refl
    · exact absurd hm' (hstuck m')

/-! ## 2. The chain of steps and the exploration -/

/-- All edges ahead are followed in turn. -/
theorem later_foldl (resolve : Resolver) (popped : List Handle) : ∀ (es : List Edge) (s : Exploration),
    Later resolve ⟨popped, es, s⟩ ⟨popped, [], es.foldl (Exploration.relaxEdge resolve) s⟩
  | [], _ => .refl
  | e :: es, s => .head (.follow popped e es s) (later_foldl resolve popped es (s.relaxEdge resolve e))

theorem later_relax (resolve : Resolver) (popped : List Handle) (s : Exploration) :
    Later resolve (opening popped s) ⟨popped, [], s.relax resolve⟩ := by
  rw [s.relax_eq resolve]
  exact later_foldl resolve popped s.outgoing s

/-- **The chain of steps leads to what the exploration answers**, with the handles of its states
    popped in turn, and there the queue is empty. -/
theorem exists_later_explore (resolve : Resolver) (s : Exploration) :
    ∃ popped, (s.states resolve).map (·.current) = s.current :: popped ∧
      Later resolve (opening [] s) ⟨popped, [], s.explore resolve⟩ ∧ (s.explore resolve).queue.pop? = none := by
  obtain ⟨last, ⟨popped, horder, hlater⟩, hn, hend⟩ := Exploration.explore_induction
    (P := fun order s' => ∃ popped, order = s.current :: popped ∧ Later resolve (opening [] s) (opening popped s'))
    (fun order a b hP hn => by
      obtain ⟨popped, rfl, hlater⟩ := hP
      obtain ⟨h, q, hp, rfl⟩ := Exploration.next?_eq_some.1 hn
      exact ⟨popped ++ [h], rfl, (hlater.trans (later_relax resolve popped a)).tail (.pop popped _ h q hp)⟩)
    ⟨[], rfl, .refl⟩
  rw [hend]
  exact ⟨popped, horder, hlater.trans (later_relax resolve popped last), Option.map_eq_none_iff.1 hn⟩

/-- **The states of a run are its openings**: the chain comes to each of them in turn. -/
theorem exists_later_opening (resolve : Resolver) (s : Exploration) : ∀ (i : Nat) (s' : Exploration),
    (s.states resolve)[i]? = some s' → ∃ popped, Later resolve (opening [] s) (opening popped s') := by
  obtain ⟨hfirst, hnext, _⟩ := Exploration.states_run resolve s
  intro i
  induction i with
  | zero =>
    intro s' hs'
    rw [hfirst, Option.some.injEq] at hs'
    exact ⟨[], hs' ▸ .refl⟩
  | succ i ih =>
    intro s' hs'
    obtain ⟨a, ha⟩ : ∃ a, (s.states resolve)[i]? = some a :=
      ⟨_, List.getElem?_eq_getElem (Nat.lt_of_succ_lt (List.getElem?_eq_some_iff.1 hs').1)⟩
    obtain ⟨popped, hlater⟩ := ih a ha
    obtain ⟨h, q, hp, rfl⟩ := Exploration.next?_eq_some.1 (hnext i a s' ha hs')
    exact ⟨popped ++ [h], (hlater.trans (later_relax resolve popped a)).tail (.pop popped _ h q hp)⟩

/-! ## 3. The invariant between two edges -/

/-- **What holds at every moment**: the invariant of the exploration, children and parents in
    agreement, and of the edges out of the vertex settled last those that do not lie ahead followed. -/
structure Sound (db : Database) (resolve : Resolver) (root : Address) (log : List (Handle × Edge)) (m : Moment) :
    Prop where
  explores : Explores db resolve root m.settled log m.state
  linked : m.state.tree.Linked m.settled
  ahead : ∃ v behind, m.state.tree.label? m.state.current = some v ∧ db.edges v.kind = behind ++ m.ahead ∧
    ∀ e ∈ behind, (m.state.current, e) ∈ log

variable {db : Database} {root : Address} {log : List (Handle × Edge)}

/-- A vertex that has just been settled has nothing behind it. -/
theorem Sound.opening {popped : List Handle} {s : Exploration}
    (hs : Explores db resolve root (Tree.root :: popped) log s) (hl : s.tree.Linked (Tree.root :: popped)) :
    (opening popped s).Sound db resolve root log where
  explores := hs
  linked := hl
  ahead := by
    obtain ⟨v, hv⟩ := hs.labelled.settled (List.mem_of_getLast? hs.last)
    exact ⟨v, [], hv, (hs.outgoing_eq hv).symm, fun e he => absurd he List.not_mem_nil⟩

/-- **A step keeps the invariant, and every settled label.** -/
theorem Sound.next (hm : m.Sound db resolve root log) (hstep : Next resolve m m') :
    (∃ log', m'.Sound db resolve root log') ∧
      ∀ h ∈ m.settled, m'.state.tree.label? h = m.state.tree.label? h := by
  obtain ⟨hs, hl, v, behind, hv, hedges, hbehind⟩ := hm
  cases hstep with
  | follow popped e es s =>
    have he : e ∈ db.edges v.kind := hedges ▸ List.mem_append_right _ List.mem_cons_self
    obtain ⟨hk, hs'⟩ := hs.relaxEdge hv he
    refine ⟨⟨_, hs', hl.congr (s.childrenOf_relaxEdge resolve e) hk.label, v, behind ++ [e], ?_, ?_, ?_⟩, hk.label⟩
    · rw [hk.current, hk.label _ (List.mem_of_getLast? hs.last), hv]
    · rw [hedges, List.append_assoc, List.singleton_append]
    · intro d hd
      rw [hk.current]
      rcases List.mem_append.1 hd with hd | hd
      · exact List.mem_append_left _ (hbehind d hd)
      · exact List.mem_append_right _ (List.mem_singleton.1 hd ▸ List.mem_singleton_self _)
  | pop popped s h q hp =>
    have hrelaxed : Explores.Relaxed db log s := fun w e hw he => by
      rw [hv, Option.some.injEq] at hw
      rw [← hw, hedges, List.append_nil] at he
      exact hbehind e he
    obtain ⟨_, hlabel, hs'⟩ := hs.settle hrelaxed hp
    have hl' := hs.linked_next? hl (Exploration.next?_eq_some.2 ⟨h, q, hp, rfl⟩)
    exact ⟨⟨log, .opening hs' hl'⟩, fun k _ => congrFun hlabel k⟩

/-- **So does a run.** -/
theorem Sound.later (hm : m.Sound db resolve root log) (h : Later resolve m m') :
    ∃ log', m'.Sound db resolve root log' := by
  induction h with
  | refl => exact ⟨log, hm⟩
  | tail _ hstep ih =>
    obtain ⟨_, hsound⟩ := ih
    exact (hsound.next hstep).1

end Moment

/-! ## 4. The run of a root -/

namespace Database

variable {db : Database} {resolve : Resolver} {root : Address} {n : Node} {m last : Moment}

/-- The run of a root comes to a moment. -/
def ComesTo (db : Database) (resolve : Resolver) (root : Address) (m : Moment) : Prop :=
  ∃ n, db.reset.rootRouter root = .ok n ∧
    Moment.Later resolve (Moment.opening [] (Exploration.start db.reset n)) m

/-- The run of a root ends at a moment: it comes there, no step follows, and what the tree and the
    database are then is the answer. -/
structure EndsAt (db : Database) (resolve : Resolver) (root : Address) (last : Moment) : Prop where
  comesTo : db.ComesTo resolve root last
  stuck : ∀ m, ¬ Moment.Next resolve last m
  answer : db.shortestPathTree resolve root = (.ok last.state.tree, last.state.database)
  order : db.settleOrder resolve root = last.settled

/-- The root of a run is a router of the database. -/
theorem exists_of_rootRouter_reset (h : db.reset.rootRouter root = .ok n) :
    ∃ r, db.get? root = some r ∧ n = r.withStatus .notExplored := by
  unfold rootRouter at h
  rw [get?_reset] at h
  cases hr : db.get? root with
  | none => simp [hr] at h
  | some r =>
    simp only [hr, Option.map_some] at h
    split at h
    · exact ⟨r, rfl, (Except.ok.inj h).symm⟩
    · cases h

/-- **At every moment of a run the invariant holds.** -/
theorem ComesTo.sound (hm : db.ComesTo resolve root m) : ∃ log, m.Sound db.reset resolve root log := by
  obtain ⟨_, hroot, hlater⟩ := hm
  obtain ⟨r, hr, rfl⟩ := exists_of_rootRouter_reset hroot
  have hid : r.id = root := (get?_eq_some_iff.1 hr).2
  subst hid
  exact (Moment.Sound.opening (Explores.start_reset resolve hr) (Exploration.linked_start _ _)).later hlater

/-- **Every moment of a run comes before its end.** -/
theorem EndsAt.later (hend : db.EndsAt resolve root last) (hm : db.ComesTo resolve root m) :
    Moment.Later resolve m last := by
  obtain ⟨n, hroot, hlater⟩ := hm
  obtain ⟨n', hroot', hlater'⟩ := hend.comesTo
  rw [hroot, Except.ok.injEq] at hroot'
  exact hlater.of_stuck (hroot' ▸ hlater') hend.stuck

/-- **The run of a router ends**, in its shortest-path tree. -/
theorem exists_endsAt (db : Database) (resolve : Resolver) (hn : db.get? root = some n)
    (hk : n.kind.isRouter = true) : ∃ last, db.EndsAt resolve root last := by
  have hroot := rootRouter_reset hn hk
  obtain ⟨popped, horder, hlater, hend⟩ :=
    Moment.exists_later_explore resolve (Exploration.start db.reset (n.withStatus .notExplored))
  refine ⟨⟨popped, [], _⟩, ⟨_, hroot, hlater⟩, fun m hm => ?_, ?_, ?_⟩
  · cases hm with
    | pop _ _ h q hp =>
      rw [hend] at hp
      cases hp
  · rw [shortestPathTree, hroot]
  · rw [settleOrder, hroot]
    exact horder

end Database

end LinkState
