import LinkState.Calculation

/-!
# Routers

A router has an identifier, interfaces, advertisements of its own and a routing table. A
calculation for it reads its interfaces and appends to its table; it changes nothing else of it. What
it appends are the routes of `Database.calculate` (`Router.routes_calculate`), so whatever is said of
those is said of the table.
-/

namespace LinkState

structure Router where
  id : Address
  interfaces : InterfaceTable := .empty
  advertisements : List Advertisement := []
  table : RoutingTable := .empty
deriving DecidableEq

namespace Router

def addInterface (r : Router) (i : Interface) : Router := { r with interfaces := r.interfaces.add i }

def addAdvertisement (r : Router) (a : Advertisement) : Router :=
  { r with advertisements := r.advertisements ++ [a] }

/-- The router with further routes behind the ones already there. -/
def install (r : Router) (routes : List Route) : Router := { r with table := r.table.append routes }

def clearRoutes (r : Router) : Router := { r with table := .empty }

def routeCount (r : Router) : Nat := r.table.routes.length

/-- Calculates a root with the router's interfaces and writes the routes to its table. -/
def calculate (r : Router) (db : Database) (root : Address) : Except Error Outcome × Database × Router :=
  let (outcome, db', table) := db.calculateInto r.interfaces.resolve root r.table
  (outcome, db', { r with table := table })

/-- **A calculation for a router** is that of the database, with the routes in the router's table. -/
theorem calculate_eq (r : Router) (db : Database) (root : Address) :
    r.calculate db root = ((db.calculate r.interfaces.resolve root).outcome,
      (db.calculate r.interfaces.resolve root).database, r.install (db.calculate r.interfaces.resolve root).routes) := by
  rw [calculate, db.calculateInto_eq]
  rfl

/-- **The table of the router** holds what it held, and behind it the routes of the calculation. -/
theorem routes_calculate (r : Router) (db : Database) (root : Address) :
    (r.calculate db root).2.2.table.routes = r.table.routes ++ (db.calculate r.interfaces.resolve root).routes := by
  rw [calculate_eq]
  rfl

end Router

end LinkState
