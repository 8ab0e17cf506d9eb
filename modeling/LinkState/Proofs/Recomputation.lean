import LinkState.Manager

/-!
# Recomputation forgets the past

Whatever is done to a manager, its routers keep what they brought along: their identifiers, their
interfaces and their advertisements, in the order in which they were added. Only tables, the database
and the roots change.

* `Manager.brought_perform`: one operation adds at most a router to what was brought along;
* `Manager.brought_run`: so after any operations it is that of the routers added;
* `Manager.recompute_eq_populate`: a recomputation starts from nothing else, hence it is the
  population of a fresh manager (`Manager.recompute_run`), and a second one changes nothing.
-/

namespace LinkState

/-! ## 1. Operations -/

/-- What can be done to a manager. -/
inductive Operation where
  | addRouter (r : Router)
  | buildDatabase
  | deleteRoutes
  | useDatabase (db : Database)
  | initializeRoutes
  | recompute
  | populate
  | calculateFor (id : Address)

namespace Manager

/-- The manager after an operation, whether that succeeded or not. -/
def perform (m : Manager) : Operation → Manager
  | .addRouter r => m.addRouter r
  | .buildDatabase => m.buildDatabase
  | .deleteRoutes => m.deleteRoutes
  | .useDatabase db => m.useDatabase db
  | .initializeRoutes => m.initializeRoutes.2
  | .recompute => m.recompute.2
  | .populate => m.populate.2
  | .calculateFor id => (m.calculateFor id).2

/-- The manager after operations in turn, from an empty one. -/
def run (ops : List Operation) : Manager := ops.foldl perform empty

end Manager

/-- The routers that operations add, in order. -/
def Operation.added (ops : List Operation) : List Router :=
  ops.filterMap fun
    | .addRouter r => some r
    | _ => none

/-! ## 2. What the routers bring along -/

/-- Writing routes leaves everything but the table. -/
theorem Router.clearRoutes_calculate (r : Router) (db : Database) (root : Address) :
    (r.calculate db root).2.2.clearRoutes = r.clearRoutes := rfl

namespace Manager

/-- The routers with empty tables. -/
def brought (m : Manager) : List Router := m.routers.map (·.clearRoutes)

theorem brought_calculateAt (m : Manager) (index : Nat) : (m.calculateAt index).2.brought = m.brought := by
  unfold calculateAt
  split
  · rfl
  · rename_i r hr
    obtain ⟨hlt, rfl⟩ := List.getElem?_eq_some_iff.1 hr
    show (m.routers.set index (m.routers[index].calculate m.database _).2.2).map (·.clearRoutes) = m.brought
    have hlt' : index < (m.routers.map (·.clearRoutes)).length := by simpa using hlt
    have hkeep : m.routers[index].clearRoutes = (m.routers.map (·.clearRoutes))[index] := by rw [List.getElem_map]
    rw [List.map_set, Router.clearRoutes_calculate, hkeep, List.set_getElem_self]
    rfl

theorem brought_calculateRoot (done : Nat × Manager) (index : Nat) :
    (calculateRoot done index).2.brought = done.2.brought := by
  have h := done.2.brought_calculateAt index
  unfold calculateRoot
  split <;> rename_i heq <;> rw [heq] at h <;> exact h

theorem brought_foldl_calculateRoot : ∀ (roots : List Nat) (done : Nat × Manager),
    (roots.foldl calculateRoot done).2.brought = done.2.brought
  | [], _ => rfl
  | index :: roots, done => (brought_foldl_calculateRoot roots _).trans (brought_calculateRoot done index)

theorem brought_initializeRoutes (m : Manager) : m.initializeRoutes.2.brought = m.brought :=
  brought_foldl_calculateRoot m.roots (0, m)

theorem brought_deleteRoutes (m : Manager) : m.deleteRoutes.brought = m.brought := by
  show (m.routers.map (·.clearRoutes)).map (·.clearRoutes) = m.routers.map (·.clearRoutes)
  rw [List.map_map]
  rfl

theorem brought_populate (m : Manager) : m.populate.2.brought = m.brought :=
  brought_initializeRoutes m.buildDatabase

theorem brought_recompute (m : Manager) : m.recompute.2.brought = m.brought :=
  m.deleteRoutes.brought_populate.trans m.brought_deleteRoutes

theorem brought_calculateFor (m : Manager) (id : Address) : (m.calculateFor id).2.brought = m.brought := by
  unfold calculateFor
  split
  · rfl
  · rename_i index _
    have h := m.brought_calculateAt index
    split <;> rename_i heq <;> rw [heq] at h <;> exact h

/-- **One operation** adds at most a router to what was brought along. -/
theorem brought_perform (m : Manager) (op : Operation) :
    (m.perform op).brought = m.brought ++ (Operation.added [op]).map (·.clearRoutes) := by
  cases op with
  | addRouter r => exact List.map_append
  | buildDatabase => exact (List.append_nil _).symm
  | deleteRoutes => exact m.brought_deleteRoutes.trans (List.append_nil _).symm
  | useDatabase db => exact (List.append_nil _).symm
  | initializeRoutes => exact m.brought_initializeRoutes.trans (List.append_nil _).symm
  | recompute => exact m.brought_recompute.trans (List.append_nil _).symm
  | populate => exact m.brought_populate.trans (List.append_nil _).symm
  | calculateFor id => exact (m.brought_calculateFor id).trans (List.append_nil _).symm

theorem brought_foldl_perform : ∀ (ops : List Operation) (m : Manager),
    (ops.foldl perform m).brought = m.brought ++ (Operation.added ops).map (·.clearRoutes)
  | [], _ => (List.append_nil _).symm
  | op :: ops, m => by
    have hadded : Operation.added (op :: ops) = Operation.added [op] ++ Operation.added ops := by
      cases op <;> rfl
    rw [List.foldl_cons, brought_foldl_perform ops, brought_perform, hadded, List.map_append, List.append_assoc]

/-- **After any operations** it is what the routers added have brought. -/
theorem brought_run (ops : List Operation) : (run ops).brought = (Operation.added ops).map (·.clearRoutes) :=
  brought_foldl_perform ops empty

/-! ## 3. Recomputation -/

theorem foldl_addRouter : ∀ (rs : List Router) (m : Manager),
    rs.foldl addRouter m = { m with routers := m.routers ++ rs }
  | [], m => by
    rw [List.append_nil]
    rfl
  | r :: rs, m => by
    rw [List.foldl_cons, foldl_addRouter rs, addRouter, List.append_assoc]
    rfl

/-- A manager that only had routers added holds those routers and nothing else. -/
theorem ofList_eq (rs : List Router) : ofList rs = ⟨rs, .empty, []⟩ := foldl_addRouter rs empty

/-- **A recomputation depends on nothing but what the routers brought along.** -/
theorem recompute_eq_populate (m : Manager) : m.recompute = (ofList m.brought).populate := by
  rw [ofList_eq]
  rfl

/-- **Recomputation forgets the past**: after any operations it is the population of a fresh manager
    of the routers that were added, with empty tables, and a second one changes nothing. -/
theorem recompute_run (ops : List Operation) :
    (run ops).recompute = (ofList ((run ops).routers.map (·.clearRoutes))).populate ∧
      (run ops).routers.map (·.clearRoutes) = (Operation.added ops).map (·.clearRoutes) ∧
      (run ops).recompute.2.recompute = (run ops).recompute := by
  refine ⟨recompute_eq_populate _, brought_run ops, ?_⟩
  rw [recompute_eq_populate (run ops).recompute.2, brought_recompute, ← recompute_eq_populate]

end Manager

end LinkState
