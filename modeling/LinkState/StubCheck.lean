import LinkState.Interface
import LinkState.Topology
import LinkState.Vertex

/-!
# Stub routers

A router with a single point-to-point link to the rest of the topology sends everything through
that link, so its routes need no shortest-path tree. `Database.stubCheck` recognises such routers:
the neighbour must be known and must have a link back.
-/

namespace LinkState

inductive StubCheck where
  /-- The router has no link to another vertex. -/
  | isolated
  /-- Everything leaves through `exit`, the neighbour being at distance `metric`. -/
  | stub (exit : Exit) (metric : Metric)
  /-- The router needs a shortest-path tree. -/
  | transit
deriving DecidableEq

/-- Decides whether a root is isolated or a stub. -/
def Database.stubCheck (db : Database) (resolve : Resolver) (root : Node) : StubCheck :=
  match root.kind.transitLinks with
  | [] => .isolated
  | [uplink] =>
    if uplink.type = .pointToPoint then
      match (db.get? uplink.id).bind (·.kind.linkTo? root.id) with
      | some back => .stub ⟨back.data, resolve uplink.data .hostMask⟩ uplink.metric
      | none => .transit
    else
      .transit
  | _ => .transit

end LinkState
