import LinkState.Address
import LinkState.Metric

/-!
# Advertisements

What routers tell each other. There are two sorts of advertisement:

* a `Node` is a vertex of the topology: a router with its links, or a transit network with the
  addresses of the routers attached to it;
* an `External` is a destination outside the routing domain, reached through the router that
  announces it.

Every advertisement carries the `Status` that a shortest-path run keeps on it. The status is
scratch: it is no part of what is advertised (`Advertisement.sameContent`).
-/

namespace LinkState

/-! ## 1. Links of a router -/

/-- What a link leads to. -/
inductive LinkType where
  /-- A neighbouring router. -/
  | pointToPoint
  /-- A transit network with routers of its own. -/
  | transitNetwork
  /-- A network behind the router that no other router uses for transit. -/
  | stubNetwork
deriving DecidableEq, Inhabited

/-- One link of a router.

    A point-to-point link names the neighbour (`id`) and the router's own address on the link
    (`data`). A transit link names the network and the router's own address on it. A stub link
    names the network (`id`) and its mask (`data`). -/
structure Link where
  type : LinkType
  id : Address
  data : Address
  metric : Metric
deriving DecidableEq

/-- A link that leads to another vertex: every link but a stub. -/
def Link.isTransit (l : Link) : Bool := l.type != .stubNetwork

/-! ## 2. The status of a run -/

/-- How far a shortest-path run has come with an advertisement. -/
inductive Status where
  | notExplored
  | candidate
  | inTree
deriving DecidableEq, Inhabited

/-! ## 3. Nodes and externals -/

/-- What a vertex of the topology advertises. -/
inductive NodeKind where
  | router (links : List Link)
  | network (mask : Address) (attached : List Address)
deriving DecidableEq

namespace NodeKind

/-- The links of a router; a network has none. -/
def links : NodeKind → List Link
  | router links => links
  | network _ _ => []

/-- The links that lead to other vertices. -/
def transitLinks (k : NodeKind) : List Link := k.links.filter Link.isTransit

def isRouter : NodeKind → Bool
  | router _ => true
  | network _ _ => false

/-- The first point-to-point link that names `neighbour`. -/
def linkTo? (k : NodeKind) (neighbour : Address) : Option Link :=
  k.links.find? fun l => l.type == .pointToPoint && l.id == neighbour

end NodeKind

/-- An advertisement that is a vertex of the topology. -/
structure Node where
  id : Address
  kind : NodeKind
  status : Status := .notExplored
deriving DecidableEq

/-- The same node with another status. -/
def Node.withStatus (n : Node) (s : Status) : Node := { n with status := s }

@[simp] theorem Node.id_withStatus (n : Node) (s : Status) : (n.withStatus s).id = n.id := rfl

@[simp] theorem Node.kind_withStatus (n : Node) (s : Status) : (n.withStatus s).kind = n.kind := rfl

@[simp] theorem Node.status_withStatus (n : Node) (s : Status) : (n.withStatus s).status = s := rfl

/-- A destination outside the domain, announced by one of its routers. -/
structure External where
  id : Address
  mask : Address
  advertisingRouter : Address
  status : Status := .notExplored
deriving DecidableEq

/-- The same external with another status. -/
def External.withStatus (e : External) (s : Status) : External := { e with status := s }

/-- Any advertisement. -/
inductive Advertisement where
  | node (n : Node)
  | external (e : External)
deriving DecidableEq

/-- The sorts of advertisement that routers tell apart. -/
inductive AdvertisementKind where
  | router
  | network
  | asExternal
deriving DecidableEq

/-- The name of the sort, as configurations write it. -/
def AdvertisementKind.name : AdvertisementKind → String
  | router => "router"
  | network => "network"
  | asExternal => "as-external"

namespace Advertisement

def kind : Advertisement → AdvertisementKind
  | node ⟨_, .router _, _⟩ => .router
  | node ⟨_, .network _ _, _⟩ => .network
  | external _ => .asExternal

/-- The identifier that an advertisement is stored under. -/
def id : Advertisement → Address
  | node n => n.id
  | external e => e.id

def status : Advertisement → Status
  | node n => n.status
  | external e => e.status

def withStatus (s : Status) : Advertisement → Advertisement
  | node n => node (n.withStatus s)
  | external e => external (e.withStatus s)

/-- The links of a router advertisement; all others have none. -/
def links : Advertisement → List Link
  | node n => n.kind.links
  | external _ => []

/-- Whether the advertisement is a vertex of the topology. -/
def isNode : Advertisement → Bool
  | node _ => true
  | external _ => false

/-- Two advertisements tell the same: they agree on everything but the status. -/
def sameContent (a b : Advertisement) : Bool :=
  a.withStatus .notExplored == b.withStatus .notExplored

@[simp] theorem withStatus_withStatus (s t : Status) (a : Advertisement) :
    (a.withStatus s).withStatus t = a.withStatus t := by
  cases a <;> rfl

@[simp] theorem status_withStatus (s : Status) (a : Advertisement) :
    (a.withStatus s).status = s := by
  cases a <;> rfl

/-- **The status is no part of the content.** -/
theorem sameContent_withStatus (s : Status) (a : Advertisement) :
    a.sameContent (a.withStatus s) = true := by
  simp [sameContent]

/-- One line that names the advertisement. -/
def text : Advertisement → String
  | node ⟨id, .router links, _⟩ =>
    "router-LSA " ++ id.text ++ " (" ++ toString links.length ++ " links)"
  | node ⟨id, .network mask attached, _⟩ =>
    "network-LSA " ++ id.text ++ "/" ++ mask.text ++ " (" ++ toString attached.length ++ " attached)"
  | external e =>
    "as-external-LSA " ++ e.id.text ++ "/" ++ e.mask.text ++ " from " ++ e.advertisingRouter.text

end Advertisement

end LinkState
