import LinkState.Manager

/-!
# Reports

The installed routes of all routers in two forms: as lines for a reader (`Manager.table`) and as
indented JSON for a program (`Manager.json`). Every text of the JSON report is an address or a
fixed word, so none of them needs escaping.
-/

namespace LinkState

/-! ## 1. Lines -/

/-- A line for the router and an indented line for each of its routes. -/
def Router.lines (r : Router) : List String :=
  ("Router " ++ r.id.text) ::
    if r.table.routes.isEmpty then ["  (no routes)"] else r.table.routes.map ("  " ++ ·.text)

/-- The routes of all routers, as lines. -/
def Manager.table (m : Manager) : String :=
  String.join ((m.routers.flatMap (·.lines)).map (· ++ "\n"))

/-! ## 2. Indented JSON -/

namespace Report

/-- The blanks in front of a line at the given depth, two for each level. -/
def indent (depth : Nat) : String := String.ofList (List.replicate (2 * depth) ' ')

/-- Items between brackets, each on a line of its own; without items the brackets stand together.
    The closing bracket is at the given depth. -/
def bracketed (opening closing : String) (depth : Nat) (items : List String) : String :=
  if items.isEmpty then
    opening ++ closing
  else
    opening ++ "\n" ++ ",\n".intercalate (items.map (indent (depth + 1) ++ ·)) ++
      "\n" ++ indent depth ++ closing

def array (depth : Nat) (items : List String) : String := bracketed "[" "]" depth items

/-- An object of members in the order given. -/
def object (depth : Nat) (members : List (String × String)) : String :=
  bracketed "\x7b" "\x7d" depth (members.map fun (key, value) => "\"" ++ key ++ "\": " ++ value)

def quoted (s : String) : String := "\"" ++ s ++ "\""

def address (a : Address) : String := quoted a.text

def kind : RouteKind → String
  | .host => quoted "host"
  | .network => quoted "network"
  | .external => quoted "external"

def route (depth : Nat) (r : Route) : String :=
  object depth
    [("kind", kind r.kind),
     ("destination", address r.destination),
     ("mask", address r.mask),
     ("next_hop", address r.nextHop),
     ("interface", toString r.interface.toNat),
     ("metric", toString r.metric.toNat)]

def router (depth : Nat) (r : Router) : String :=
  object depth
    [("router_id", address r.id),
     ("routes", array (depth + 1) (r.table.routes.map (route (depth + 2))))]

end Report

/-- The routes of all routers, as indented JSON. -/
def Manager.json (m : Manager) : String := Report.array 0 (m.routers.map (Report.router 1))

end LinkState
