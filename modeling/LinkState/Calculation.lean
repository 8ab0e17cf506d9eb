import LinkState.RouteInstallation
import LinkState.ShortestPath
import LinkState.StubCheck

/-!
# Calculating the routes of one root

`Database.calculateInto` decides whether the root is isolated, a stub or needs a tree, and writes its
routes to a table. It reads the database and the interfaces and nothing else: what earlier runs left
in the statuses has no influence, since they are reset first, and neither has what stands in the
table. `Database.calculate` is the run over an empty table; any other gets the same routes behind
those that it has (`Database.calculateInto_eq`).
-/

namespace LinkState

/-! ## 1. The run -/

/-- How the routes of a root were found. -/
inductive Outcome where
  | isolated
  | stub (exit : Exit)
  | tree (vertices routes : Nat)
deriving DecidableEq

/-- The default route of a stub, if the uplink has an interface. -/
def defaultRoute (exit : Exit) (metric : Metric) : List Route :=
  exit.interface.toList.map fun i => .network .unspecified .unspecified exit.nextHop i metric

namespace Database

/-- Calculates by the shortest-path tree and writes its routes to a table. -/
def calculateTreeInto (db : Database) (resolve : Resolver) (root : Address) (table : RoutingTable) :
    Except Error Outcome × Database × RoutingTable :=
  match db.shortestPathTree resolve root with
  | (.error e, db') => (.error e, db', table)
  | (.ok t, db') =>
    match t.installRoutes db'.externals table with
    | (none, _, table') => (.error (.routing .danglingHandle), db', table')
    | (some n, t', table') => (.ok (.tree t'.size n), db', table')

/-- Calculates the routes of a root and writes them to a table. -/
def calculateInto (db : Database) (resolve : Resolver) (root : Address) (table : RoutingTable) :
    Except Error Outcome × Database × RoutingTable :=
  match db.reset.rootRouter root with
  | .error e => (.error e, db.reset, table)
  | .ok n =>
    match db.reset.stubCheck resolve n with
    | .isolated => (.ok .isolated, db.reset, table)
    | .stub exit metric => (.ok (.stub exit), db.reset, (table.writeAll (defaultRoute exit metric)).2)
    | .transit => db.reset.calculateTreeInto resolve root table

end Database

/-! ## 2. What a run writes -/

/-- The answer of a calculation. -/
structure Calculation where
  outcome : Except Error Outcome
  /-- The routes that it writes, in order. -/
  routes : List Route
  /-- The database with the statuses of the run. -/
  database : Database

/-- The answer of a run over a table that was empty before. -/
def Calculation.ofEmpty : Except Error Outcome × Database × RoutingTable → Calculation
  | (outcome, db, table) => ⟨outcome, table.routes, db⟩

/-- A run that writes nothing leaves every table as it is. -/
theorem Calculation.ofEmpty_of_unwritten (outcome : Except Error Outcome) (db : Database) (table : RoutingTable) :
    (outcome, db, table) = ((ofEmpty (outcome, db, .empty)).outcome, (ofEmpty (outcome, db, .empty)).database,
      table.append (ofEmpty (outcome, db, .empty)).routes) :=
  congrArg (outcome, db, ·) table.append_nil.symm

namespace Database

/-- The routes of a shortest-path tree. -/
def calculateTree (db : Database) (resolve : Resolver) (root : Address) : Calculation :=
  .ofEmpty (db.calculateTreeInto resolve root .empty)

/-- The routes of a root. -/
def calculate (db : Database) (resolve : Resolver) (root : Address) : Calculation :=
  .ofEmpty (db.calculateInto resolve root .empty)

variable (db : Database) (resolve : Resolver) (root : Address) (table : RoutingTable)

/-- **A run only appends**: it comes to the same whatever stands in its table, and its routes are written
    behind. -/
theorem calculateTreeInto_eq : db.calculateTreeInto resolve root table =
    ((db.calculateTree resolve root).outcome, (db.calculateTree resolve root).database,
      table.append (db.calculateTree resolve root).routes) := by
  unfold calculateTree calculateTreeInto
  split
  · exact Calculation.ofEmpty_of_unwritten ..
  · rename_i t db' _
    obtain ⟨n, t', written, _, hrun⟩ := t.appends_installRoutes db'.externals
    rw [hrun, hrun]
    cases n <;> rfl

theorem calculateInto_eq : db.calculateInto resolve root table =
    ((db.calculate resolve root).outcome, (db.calculate resolve root).database,
      table.append (db.calculate resolve root).routes) := by
  unfold calculate calculateInto
  split
  · exact Calculation.ofEmpty_of_unwritten ..
  · split
    · exact Calculation.ofEmpty_of_unwritten ..
    · rw [RoutingTable.writeAll_eq, RoutingTable.writeAll_eq]
      rfl
    · exact db.reset.calculateTreeInto_eq resolve root table

/-- Without a router under the root nothing is written. -/
theorem calculate_of_error {root : Address} {e : Error} (h : db.reset.rootRouter root = .error e) :
    db.calculate resolve root = ⟨.error e, [], db.reset⟩ := by
  rw [calculate, calculateInto, h]
  rfl

end Database

end LinkState
