import LinkState.Address
import LinkState.Metric

/-!
# Routes

A route says through which next hop and interface a destination is reached, and at what distance.
The table of a router is the list of its routes in the order in which they were written: equal-cost
routes to one destination stand side by side, and nothing but clearing the table takes one out.
-/

namespace LinkState

inductive RouteKind where
  /-- A single address. -/
  | host
  /-- A network of the routing domain. -/
  | network
  /-- A destination outside the domain. -/
  | external
deriving DecidableEq

structure Route where
  kind : RouteKind
  destination : Address
  mask : Address
  nextHop : Address
  interface : UInt32
  metric : Metric
deriving DecidableEq

namespace Route

def host (destination nextHop : Address) (interface : UInt32) (metric : Metric) : Route :=
  ⟨.host, destination, .hostMask, nextHop, interface, metric⟩

def network (destination mask nextHop : Address) (interface : UInt32) (metric : Metric) : Route :=
  ⟨.network, destination, mask, nextHop, interface, metric⟩

def external (destination mask nextHop : Address) (interface : UInt32) (metric : Metric) : Route :=
  ⟨.external, destination, mask, nextHop, interface, metric⟩

/-! ## Written form -/

/-- Fills a text up with blanks on the right. -/
def padRight (width : Nat) (s : String) : String := s ++ String.ofList (List.replicate (width - s.length) ' ')

/-- Fills a text up with blanks on the left. -/
def padLeft (width : Nat) (s : String) : String := String.ofList (List.replicate (width - s.length) ' ') ++ s

def kindText : RouteKind → String
  | .host => "host"
  | .network => "net"
  | .external => "ext"

/-- The line of a routing table. The number behind the destination counts the set bits of the
    mask, which is its length if the mask is contiguous. -/
def text (r : Route) : String :=
  padRight 4 (kindText r.kind) ++ " " ++
    padLeft 18 (r.destination.text ++ "/" ++ toString r.mask.oneBits) ++
    " via " ++ padRight 15 r.nextHop.text ++
    " if " ++ padRight 3 (toString r.interface.toNat) ++
    " metric " ++ toString r.metric.toNat

end Route

/-- The routes of one router, in the order in which they were written. -/
structure RoutingTable where
  routes : List Route
deriving DecidableEq

namespace RoutingTable

def empty : RoutingTable := ⟨[]⟩

def add (t : RoutingTable) (r : Route) : RoutingTable := ⟨t.routes ++ [r]⟩

def append (t : RoutingTable) (rs : List Route) : RoutingTable := ⟨t.routes ++ rs⟩

/-- Writes a route and counts it. -/
def write (done : Nat × RoutingTable) (r : Route) : Nat × RoutingTable := (done.1 + 1, done.2.add r)

/-- Writes routes in turn and counts them. -/
def writeAll (t : RoutingTable) (rs : List Route) : Nat × RoutingTable := rs.foldl write (0, t)

/-- The routes to a destination. -/
def routesTo (t : RoutingTable) (destination : Address) : List Route :=
  t.routes.filter (·.destination == destination)

theorem append_nil (t : RoutingTable) : t.append [] = t := by simp [append]

theorem append_append (t : RoutingTable) (rs ss : List Route) :
    (t.append rs).append ss = t.append (rs ++ ss) := by
  simp [append]

theorem empty_append (rs : List Route) : empty.append rs = ⟨rs⟩ := rfl

theorem add_append (t : RoutingTable) (r : Route) (rs : List Route) : (t.add r).append rs = t.append (r :: rs) :=
  t.append_append [r] rs

/-- Every route that is written counts once, and stands behind those before it. -/
theorem foldl_write (rs : List Route) : ∀ done : Nat × RoutingTable,
    rs.foldl write done = (done.1 + rs.length, done.2.append rs) := by
  induction rs with
  | nil => exact fun done => congrArg (Prod.mk done.1) done.2.append_nil.symm
  | cons r rs ih =>
    intro done
    rw [List.foldl_cons, ih, write, add_append, List.length_cons, Nat.add_right_comm, Nat.add_assoc]

/-- **Writing appends and counts.** -/
theorem writeAll_eq (t : RoutingTable) (rs : List Route) : t.writeAll rs = (rs.length, t.append rs) := by
  rw [writeAll, foldl_write, Nat.zero_add]

end RoutingTable

end LinkState
