import LinkState.Router

/-!
# The route manager

The manager owns the routers of a domain, the database of their advertisements and the list of the
roots: the positions of the routers whose routes are calculated.

* `buildDatabase` stores what the routers advertise, `useDatabase` takes a database from outside;
* `initializeRoutes` calculates every root in turn, `calculateFor` a single one;
* `deleteRoutes` forgets routes, database and roots; `recompute` is all three in order.

A router's own advertisements are never changed: the database holds copies.
-/

namespace LinkState

structure Manager where
  routers : List Router
  database : Database
  /-- The positions of the routers that are calculated, each once. -/
  roots : List Nat

namespace Manager

def empty : Manager := ⟨[], .empty, []⟩

def addRouter (m : Manager) (r : Router) : Manager := { m with routers := m.routers ++ [r] }

/-- The manager of the routers, added in turn. -/
def ofList (rs : List Router) : Manager := rs.foldl addRouter empty

/-- The positions of the routers with a property, in ascending order. -/
def positions (m : Manager) (p : Router → Bool) : List Nat :=
  (m.routers.zipIdx.filter fun (r, _) => p r).map (·.2)

/-- Stores the advertisements of every router. A router that advertises becomes a root. -/
def buildDatabase (m : Manager) : Manager :=
  { m with
    database := m.database.insertAll (m.routers.flatMap (·.advertisements))
    roots := Distinct.merge m.roots (m.positions (!·.advertisements.isEmpty)) }

/-- Takes a database in place of the manager's own. The routers that it holds a node of become the
    roots. -/
def useDatabase (m : Manager) (db : Database) : Manager :=
  { m with
    database := db
    roots := m.positions fun r => (db.get? r.id).isSome }

/-- Calculates the router at a position; `none` if there is no router. -/
def calculateAt (m : Manager) (index : Nat) : Option (Except Error Outcome) × Manager :=
  match m.routers[index]? with
  | none => (none, m)
  | some r =>
    let (outcome, db, r') := r.calculate m.database r.id
    (some outcome, { m with database := db, routers := m.routers.set index r' })

/-- The router at the position gets the routes of its calculation, and the database the statuses. -/
theorem calculateAt_eq {m : Manager} {index : Nat} {r : Router} (hr : m.routers[index]? = some r) :
    m.calculateAt index = (some (m.database.calculate r.interfaces.resolve r.id).outcome,
      { m with
        database := (m.database.calculate r.interfaces.resolve r.id).database
        routers := m.routers.set index (r.install (m.database.calculate r.interfaces.resolve r.id).routes) }) := by
  rw [calculateAt, hr]
  dsimp only
  rw [Router.calculate_eq]

/-- Calculates a root and counts it if that succeeds. -/
def calculateRoot (done : Nat × Manager) (index : Nat) : Nat × Manager :=
  match done.2.calculateAt index with
  | (some (.ok _), m) => (done.1 + 1, m)
  | (_, m) => (done.1, m)

/-- Calculates every root in turn and counts those that succeed. -/
def initializeRoutes (m : Manager) : Nat × Manager := m.roots.foldl calculateRoot (0, m)

/-- Forgets all routes, the database and the roots. -/
def deleteRoutes (m : Manager) : Manager :=
  { routers := m.routers.map (·.clearRoutes), database := .empty, roots := [] }

/-- Stores what the routers advertise and calculates every root. -/
def populate (m : Manager) : Nat × Manager := m.buildDatabase.initializeRoutes

/-- Starts again from nothing but the routers' own advertisements. -/
def recompute (m : Manager) : Nat × Manager := m.deleteRoutes.populate

/-- Calculates the first router with an identifier. -/
def calculateFor (m : Manager) (id : Address) : Except Error Outcome × Manager :=
  match m.routers.findIdx? (·.id == id) with
  | none => (.error (.routing (.noSuchRouter id)), m)
  | some index =>
    match m.calculateAt index with
    | (some outcome, m') => (outcome, m')
    | (none, m') => (.error (.routing (.noSuchRouter id)), m')

/-- The first router with an identifier. -/
def router? (m : Manager) (id : Address) : Option Router := m.routers.find? (·.id == id)

end Manager

end LinkState
