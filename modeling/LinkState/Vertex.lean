import LinkState.Advertisement
import LinkState.Distinct

/-!
# Vertices of a shortest-path tree

A vertex is a node of the topology together with what a run has found out about it: its distance
from the root, the exits through which the root reaches it, and its place in the tree. Parents and
children are handles into the arena that holds the vertices.
-/

namespace LinkState

/-- The position of a vertex in the arena. -/
abbrev Handle := Nat

/-- A first step out of the root: the next hop, and the root's interface towards it where the root
    has one. The next hop `0.0.0.0` says that the destination is a network attached to the root. -/
structure Exit where
  nextHop : Address
  interface : Option UInt32
deriving DecidableEq

structure Vertex where
  id : Address
  kind : NodeKind
  distance : Metric := 0
  exits : List Exit := []
  parents : List Handle := []
  children : List Handle := []
  /-- A walk has come past this vertex. -/
  processed : Bool := false
deriving DecidableEq

namespace Vertex

/-- The vertex of a node, with nothing known about it. -/
def ofNode (n : Node) : Vertex := { id := n.id, kind := n.kind }

def setDistance (v : Vertex) (d : Metric) : Vertex := { v with distance := d }

/-- Takes the exits in place of the earlier ones. -/
def setExits (v : Vertex) (exits : List Exit) : Vertex := { v with exits := Distinct.merge [] exits }

def mergeExits (v : Vertex) (exits : List Exit) : Vertex := { v with exits := Distinct.merge v.exits exits }

/-- Takes the parent in place of all earlier ones. -/
def setParent (v : Vertex) (p : Handle) : Vertex := { v with parents := [p] }

def mergeParents (v : Vertex) (ps : List Handle) : Vertex := { v with parents := Distinct.merge v.parents ps }

def addChild (v : Vertex) (c : Handle) : Vertex := { v with children := Distinct.add v.children c }

def setProcessed (v : Vertex) (processed : Bool) : Vertex := { v with processed := processed }

/-- The exits for which the root has an interface, as next hop and interface. -/
def usableExits (v : Vertex) : List (Address × UInt32) :=
  v.exits.filterMap fun e => e.interface.map fun i => (e.nextHop, i)

end Vertex

end LinkState
