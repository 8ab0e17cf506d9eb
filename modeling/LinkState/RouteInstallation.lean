import LinkState.Route
import LinkState.Tree

/-!
# The routes of a tree

A finished tree is turned into routes in passes. Every pass walks the tree depth first and writes,
for each vertex but the root, one route an exit that has an interface; what the root itself
advertises makes no route.

1. `intraAreaRoutes`: a host route to every point-to-point address of a router, a network route to
   every transit network;
2. `stubRoutes`: a network route to every stub network of a router;
3. `externalRoutes`: for each external in turn, the routes to the router that announces it.

`installRoutes` runs the passes in turn over a table: every route is written behind those that stand
there, and the answer is how many were written. Nothing in it reads the table (`Appends`).

A pass over a tree with a handle that leads outside its arena answers `none` and the tree as far as
the walk came; the passes after it do not run, and what was written before stays.
-/

namespace LinkState

/-! ## 1. The routes to one vertex -/

namespace Vertex

/-- Host routes to the point-to-point addresses of a router, or the routes to a transit network. -/
def intraAreaRoutes (v : Vertex) : List Route :=
  match v.kind with
  | .router links =>
    (links.filter (·.type == .pointToPoint)).flatMap fun l =>
      v.usableExits.map fun (nextHop, interface) => .host l.data nextHop interface v.distance
  | .network mask _ =>
    v.usableExits.map fun (nextHop, interface) =>
      .network (v.id.combine mask) mask nextHop interface v.distance

/-- Network routes to the stub networks of a router. -/
def stubRoutes (v : Vertex) : List Route :=
  (v.kind.links.filter (·.type == .stubNetwork)).flatMap fun l =>
    v.usableExits.map fun (nextHop, interface) =>
      .network (l.id.combine l.data) l.data nextHop interface v.distance

/-- The routes to a destination that the vertex announces from outside the domain. -/
def externalRoutes (v : Vertex) (e : External) : List Route :=
  v.usableExits.map fun (nextHop, interface) =>
    .external (e.id.combine e.mask) e.mask nextHop interface v.distance

end Vertex

/-! ## 2. Passes over a tree -/

namespace Tree

/-- A pass over a tree: the routes it makes, and the tree with the marks of its walk. -/
abbrev Pass := Tree → Option (List Route) × Tree

/-- Walks the tree and makes routes of the order in which its vertices were met. -/
def routesAlong (f : Tree → List Handle → List Route) : Pass := fun t =>
  let (order, t') := t.depthFirst
  (order.map (f t'), t')

/-- The routes of the vertices other than the root, in the order of a walk. -/
def routesBelowRoot (f : Vertex → List Route) (t : Tree) (order : List Handle) : List Route :=
  ((order.filter (· != root)).filterMap t.vertex?).flatMap f

def intraAreaRoutes : Pass := routesAlong (routesBelowRoot Vertex.intraAreaRoutes)

def stubRoutes : Pass := routesAlong (routesBelowRoot Vertex.stubRoutes)

/-- The first router with an identifier, in the order of a walk. -/
def firstRouter? (t : Tree) (id : Address) (order : List Handle) : Option Handle :=
  order.find? fun h => (t.vertex? h).any fun v => v.kind.isRouter && v.id == id

/-- The routes to an external lead to the router that announces it. -/
def externalRoutes (e : External) : Pass :=
  routesAlong fun t order => routesBelowRoot (·.externalRoutes e) t (t.firstRouter? e.advertisingRouter order).toList

/-! ## 3. Writing to a table -/

/-- What a run over a table comes to: how many routes it has written, unless it breaks off, and the tree
    and the table as it leaves them. -/
abbrev Installed := Option Nat × Tree × RoutingTable

/-- Writes the routes of a pass to a table. A walk that breaks off has written nothing. -/
def Pass.install (pass : Pass) (t : Tree) (table : RoutingTable) : Installed :=
  match pass t with
  | (none, t') => (none, t', table)
  | (some rs, t') =>
    let (n, table') := table.writeAll rs
    (some n, t', table')

/-- Installs passes in turn, up to the first that breaks off, and adds up what they have written. -/
def installInTurn : List Pass → Tree → RoutingTable → Installed
  | [], t, table => (some 0, t, table)
  | pass :: passes, t, table =>
    match pass.install t table with
    | (none, t', table') => (none, t', table')
    | (some n, t', table') =>
      let (m, t'', table'') := installInTurn passes t' table'
      (m.map (n + ·), t'', table'')

/-- Writes every route of a tree, the externals in the order given. -/
def installRoutes (t : Tree) (externals : List External) (table : RoutingTable) : Installed :=
  installInTurn (intraAreaRoutes :: stubRoutes :: externals.map externalRoutes) t table

/-- The routes that a tree writes, as they stand in a table that was empty before. -/
def allRoutes (externals : List External) : Pass := fun t =>
  let (n, t', table) := t.installRoutes externals .empty
  (n.map fun _ => table.routes, t')

/-- **A run over a table only appends**: whatever stands in the table, it leaves the same tree and writes
    the same routes behind, and what it answers is how many they are. -/
def Appends (run : RoutingTable → Installed) : Prop :=
  ∃ (n : Option Nat) (t' : Tree) (written : List Route), (∀ k, n = some k → k = written.length) ∧
    ∀ table, run table = (n, t', table.append written)

theorem Pass.appends_install (pass : Pass) (t : Tree) : Appends (pass.install t) := by
  rcases hpass : pass t with ⟨_ | rs, t'⟩
  · refine ⟨none, t', [], nofun, fun table => ?_⟩
    rw [Pass.install, hpass, RoutingTable.append_nil]
  · refine ⟨some rs.length, t', rs, fun k hk => (Option.some.inj hk).symm, fun table => ?_⟩
    rw [Pass.install, hpass]
    dsimp only
    rw [RoutingTable.writeAll_eq]

/-- **So do passes in turn**, each behind what the passes before it have written. -/
theorem appends_installInTurn (passes : List Pass) : ∀ t : Tree, Appends (installInTurn passes t) := by
  induction passes with
  | nil => exact fun t => ⟨some 0, t, [], fun k hk => (Option.some.inj hk).symm,
      fun table => by rw [installInTurn, RoutingTable.append_nil]⟩
  | cons pass passes ih =>
    intro t
    obtain ⟨n, t', rs, hcount, hpass⟩ := pass.appends_install t
    cases n with
    | none =>
      refine ⟨none, t', rs, nofun, fun table => ?_⟩
      rw [installInTurn, hpass]
    | some n =>
      obtain ⟨m, t'', ss, hcount', hrest⟩ := ih t'
      refine ⟨m.map (n + ·), t'', rs ++ ss, fun k hk => ?_, fun table => ?_⟩
      · obtain ⟨m, rfl, rfl⟩ := Option.map_eq_some_iff.1 hk
        rw [List.length_append, hcount n rfl, hcount' m rfl]
      · rw [installInTurn, hpass]
        dsimp only
        rw [hrest, RoutingTable.append_append]

theorem appends_installRoutes (t : Tree) (externals : List External) : Appends (t.installRoutes externals) :=
  appends_installInTurn _ t

/-- What is written to an empty table is written behind any other, and counted. -/
theorem installRoutes_of_allRoutes {t : Tree} {es : List External} {rs : List Route}
    (hall : (t.allRoutes es).1 = some rs) (table : RoutingTable) :
    t.installRoutes es table = (some rs.length, (t.allRoutes es).2, table.append rs) := by
  obtain ⟨n, t', written, hcount, hrun⟩ := t.appends_installRoutes es
  rw [allRoutes, hrun, RoutingTable.empty_append] at hall
  obtain ⟨k, rfl, rfl⟩ := Option.map_eq_some_iff.1 hall
  rw [allRoutes, hrun, hrun, hcount k rfl]

end Tree

end LinkState
