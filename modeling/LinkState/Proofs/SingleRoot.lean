import Mathlib.Data.Set.Card
import LinkState.Proofs.RootIsolation

/-!
# Calculating a single root

A single root is calculated by its identifier. There are three ways to fail, and they show at different
depths: no router of the manager has the identifier, nothing is stored under it, or what is stored is a
network. Only the first is noticed before the statuses are reset; none of them changes anything else.
A calculation that succeeds writes behind the routes of one table, that of the first router with the
identifier, and its outcome tells how much it has written.

* `Database.accounts_calculate`: the outcome tells the number of the routes written, and that of a tree
  also how many nodes the root reaches;
* `Manager.calculateFor_of_absent`, `Manager.calculateFor_of_first`: which router is calculated, if any;
* `Manager.calculatesOne_calculateFor`: so every run is one of the four in `Manager.CalculatesOne`.
-/

namespace LinkState

/-! ## 1. What an outcome tells -/

/-- **What an outcome tells** of the routes that were written for a root: an isolated root gets none, a
    stub its default route if the uplink has an interface, and any other as many as the outcome counts. Its
    vertices are the nodes that the root reaches. -/
def Outcome.Accounts (db : Database) (root : Address) (routes : List Route) : Outcome → Prop
  | isolated => routes = []
  | stub exit => routes.length = if exit.interface.isSome then 1 else 0
  | tree vertices count => routes.length = count ∧ vertices = {id | db.Reachable root id}.ncard

theorem length_defaultRoute (exit : Exit) (metric : Metric) :
    (defaultRoute exit metric).length = if exit.interface.isSome then 1 else 0 := by
  cases h : exit.interface with
  | none => rw [defaultRoute_of_none h, Option.isSome_none, if_neg Bool.false_ne_true, List.length_nil]
  | some i => rw [defaultRoute_of_some h, Option.isSome_some, if_pos rfl, List.length_singleton]

/-- A shortest-path tree has as many vertices as there are reachable nodes. -/
theorem Tree.IsShortest.size_eq {t : Tree} {db : Database} {root : Address} (ht : t.IsShortest db root) :
    t.size = {id | db.Reachable root id}.ncard := by
  have hids : {id | db.Reachable root id} = ((t.vertices.map (·.id)).toFinset : Set Address) := by
    ext id
    rw [Finset.mem_coe, List.mem_toFinset, ht.mem_iff, Set.mem_ofPred_eq]
  rw [hids, Set.ncard_coe_finset, List.toFinset_card_of_nodup ht.nodup, List.length_map, Tree.size]

namespace Database

variable {db : Database} {root : Address} {n : Node}

/-- **The outcome accounts for the routes** of every calculation that comes to its end. -/
theorem accounts_calculate (resolve : Resolver) (hn : db.get? root = some n) (hk : n.kind.isRouter = true) :
    ∃ o routes db', db.calculate resolve root = ⟨.ok o, routes, db'⟩ ∧ o.Accounts db root routes := by
  cases hcheck : db.stubCheck resolve n with
  | isolated => exact ⟨_, _, _, calculate_of_isolated hn hk hcheck, rfl⟩
  | stub exit metric => exact ⟨_, _, _, calculate_of_stub hn hk hcheck, length_defaultRoute exit metric⟩
  | transit =>
    obtain ⟨t, db', routes, _, ht, hcalc, _⟩ := db.exists_calculateTree resolve hn hk
    exact ⟨_, _, _, (calculate_of_transit hn hk hcheck).trans hcalc, rfl, ht.isShortest.size_eq⟩

/-- Nothing is stored under the root. -/
theorem calculate_of_absent (resolve : Resolver) (hn : db.get? root = none) :
    db.calculate resolve root = ⟨.error (.unknownRoot root), [], db.reset⟩ := by
  refine calculate_of_error db resolve ?_
  rw [rootRouter, get?_reset, hn]
  rfl

/-- A network is stored under the root. -/
theorem calculate_of_network (resolve : Resolver) (hn : db.get? root = some n) (hk : n.kind.isRouter = false) :
    db.calculate resolve root = ⟨.error (.routing (.rootIsNoRouter root)), [], db.reset⟩ := by
  refine calculate_of_error db resolve ?_
  rw [rootRouter, get?_reset, hn, Option.map_some]
  dsimp only
  rw [Node.kind_withStatus, hk, if_neg Bool.false_ne_true]

end Database

/-! ## 2. Which router is calculated -/

namespace Manager

variable {m : Manager} {id : Address}

theorem calculateFor_of_absent (h : ∀ r ∈ m.routers, r.id ≠ id) :
    m.calculateFor id = (.error (.routing (.noSuchRouter id)), m) := by
  have hnone : m.routers.findIdx? (·.id == id) = none :=
    List.findIdx?_eq_none_iff.2 fun r hr => beq_eq_false_iff_ne.2 (h r hr)
  rw [calculateFor, hnone]

/-- **The first router with the identifier is calculated**, and no other router changes. -/
theorem calculateFor_of_first {front back : List Router} {r : Router} (hm : m.routers = front ++ r :: back)
    (hid : r.id = id) (hfront : ∀ q ∈ front, q.id ≠ id) :
    m.calculateFor id = ((m.database.calculate r.interfaces.resolve id).outcome,
      { routers := front ++ r.install (m.database.calculate r.interfaces.resolve id).routes :: back
        database := (m.database.calculate r.interfaces.resolve id).database
        roots := m.roots }) := by
  have hindex : m.routers.findIdx? (·.id == id) = some front.length := by
    have hnone : front.findIdx? (·.id == id) = none :=
      List.findIdx?_eq_none_iff.2 fun q hq => beq_eq_false_iff_ne.2 (hfront q hq)
    rw [hm, List.findIdx?_append, hnone, List.findIdx?_cons, hid, beq_self_eq_true]
    simp
  have hr : m.routers[front.length]? = some r := by
    rw [hm, List.getElem?_append_right (Nat.le_refl _), Nat.sub_self]
    rfl
  have hat : m.calculateAt front.length = (some (m.database.calculate r.interfaces.resolve id).outcome,
      { routers := front ++ r.install (m.database.calculate r.interfaces.resolve id).routes :: back
        database := (m.database.calculate r.interfaces.resolve id).database
        roots := m.roots }) := by
    rw [calculateAt_eq hr, hid, hm, List.set_append_right _ _ (Nat.le_refl _), Nat.sub_self]
    rfl
  rw [calculateFor, hindex]
  dsimp only
  rw [hat]

/-! ## 3. All or nothing -/

/-- **What calculating a single root comes to.** It fails in three cases, and leaves everything but
    statuses as it was; or the first router with the identifier has further routes behind those it had,
    which the outcome accounts for, and the database changes in statuses only. -/
inductive CalculatesOne (m : Manager) (id : Address) : Except Error Outcome × Manager → Prop
  /-- No router has the identifier: nothing changes. -/
  | noSuchRouter (habsent : ∀ r ∈ m.routers, r.id ≠ id) :
    CalculatesOne m id (.error (.routing (.noSuchRouter id)), m)
  /-- Nothing is stored under it: the statuses are reset. -/
  | unknownRoot (hrouter : ∃ r ∈ m.routers, r.id = id) (hn : m.database.get? id = none) :
    CalculatesOne m id (.error (.unknownRoot id), { m with database := m.database.reset })
  /-- A network is stored under it: the statuses are reset. -/
  | rootIsNoRouter {n : Node} (hrouter : ∃ r ∈ m.routers, r.id = id) (hn : m.database.get? id = some n)
      (hk : n.kind.isRouter = false) :
    CalculatesOne m id (.error (.routing (.rootIsNoRouter id)), { m with database := m.database.reset })
  | calculated {n : Node} {front back : List Router} {r : Router} {o : Outcome} {routes : List Route} {db : Database}
      (hn : m.database.get? id = some n) (hk : n.kind.isRouter = true) (hm : m.routers = front ++ r :: back)
      (hid : r.id = id) (hfront : ∀ q ∈ front, q.id ≠ id) (haccounts : o.Accounts m.database id routes)
      (hdb : db.reset = m.database.reset) :
    CalculatesOne m id
      (.ok o, ⟨front ++ { r with table := ⟨r.table.routes ++ routes⟩ } :: back, db, m.roots⟩)

/-- **Every run is one of the four.** -/
theorem calculatesOne_calculateFor (m : Manager) (id : Address) : m.CalculatesOne id (m.calculateFor id) := by
  cases hfind : m.routers.find? (·.id == id) with
  | none =>
    have habsent : ∀ r ∈ m.routers, r.id ≠ id := by simpa using hfind
    rw [calculateFor_of_absent habsent]
    exact .noSuchRouter habsent
  | some r =>
    obtain ⟨hid, front, back, hm, hfront⟩ := List.find?_eq_some_iff_append.1 hfind
    have hid : r.id = id := by simpa using hid
    have hfront : ∀ q ∈ front, q.id ≠ id := by simpa using hfront
    have hrouter : ∃ r ∈ m.routers, r.id = id := ⟨r, List.mem_of_find?_eq_some hfind, hid⟩
    -- without routes the table of the router is what it was
    have hsame : front ++ r.install [] :: back = m.routers := by
      rw [Router.install, RoutingTable.append_nil, hm]
    rw [calculateFor_of_first hm hid hfront]
    cases hn : m.database.get? id with
    | none =>
      rw [Database.calculate_of_absent _ hn]
      dsimp only
      rw [hsame]
      exact .unknownRoot hrouter hn
    | some n =>
      cases hk : n.kind.isRouter with
      | false =>
        rw [Database.calculate_of_network _ hn hk]
        dsimp only
        rw [hsame]
        exact .rootIsNoRouter hrouter hn hk
      | true =>
        obtain ⟨o, routes, db, hcalc, haccounts⟩ := Database.accounts_calculate r.interfaces.resolve hn hk
        have hdb := m.database.reset_calculate r.interfaces.resolve id
        rw [hcalc] at hdb ⊢
        exact .calculated hn hk hm hid hfront haccounts hdb

/-- **A single root is calculated or nothing is**: the run is one of the four, and which one depends on
    whether a router has the identifier and on what is stored under it, and on nothing else. -/
theorem calculateFor_allOrNothing (m : Manager) (id : Address) :
    m.CalculatesOne id (m.calculateFor id) ∧
      ((m.calculateFor id).1 = .error (.routing (.noSuchRouter id)) ↔ ¬ ∃ r ∈ m.routers, r.id = id) ∧
      ((m.calculateFor id).1 = .error (.unknownRoot id) ↔
        (∃ r ∈ m.routers, r.id = id) ∧ m.database.get? id = none) ∧
      ((m.calculateFor id).1 = .error (.routing (.rootIsNoRouter id)) ↔
        (∃ r ∈ m.routers, r.id = id) ∧ ∃ n, m.database.get? id = some n ∧ n.kind.isRouter = false) ∧
      ((∃ o, (m.calculateFor id).1 = .ok o) ↔
        (∃ r ∈ m.routers, r.id = id) ∧ ∃ n, m.database.get? id = some n ∧ n.kind.isRouter = true) := by
  have hone := m.calculatesOne_calculateFor id
  refine ⟨hone, ?_⟩
  generalize m.calculateFor id = done at hone
  cases hone with
  | noSuchRouter habsent =>
    have hnot : ¬ ∃ r ∈ m.routers, r.id = id := fun ⟨r, hr, hid⟩ => habsent r hr hid
    simp [-not_exists, -not_and, hnot]
  | unknownRoot hrouter hn => simp [-not_exists, -not_and, hrouter, hn]
  | rootIsNoRouter hrouter hn hk => simp [-not_exists, -not_and, hrouter, hn, hk]
  | @calculated _ _ _ r _ _ _ hn hk hm hid =>
    have hrouter : ∃ r ∈ m.routers, r.id = id := ⟨r, hm ▸ List.mem_append_right _ List.mem_cons_self, hid⟩
    simp [-not_exists, -not_and, hrouter, hn, hk]

end Manager

end LinkState
