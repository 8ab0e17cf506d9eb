import LinkState.CandidateQueue
import LinkState.Error
import LinkState.Interface
import LinkState.Topology
import LinkState.Tree

/-!
# Shortest paths from a root

A run settles the nodes of the topology in ascending order of their distance from the root, and of
their identifiers where distances are equal. Its state holds the tree, the queue of the candidates,
the database with the status of every node, and the vertex settled last.

* `firstHops` says through which exits of the root a node is reached from a settled vertex;
* `relaxEdge` follows one edge out of the settled vertex, `relax` all of them;
* `next?` settles the first candidate;
* `explore` repeats the two until no candidate is left. A candidate comes from an unexplored node
  and a settled one leaves the queue, so `2 · unexplored + queued` falls (`next?_lt`).

Equal-cost paths are kept side by side: a candidate reached at the distance it already has takes on
the exits and the parent of the new path beside its own.
-/

namespace LinkState

/-- The state of a run. -/
structure Exploration where
  tree : Tree
  queue : CandidateQueue
  database : Database
  /-- The vertex settled last. -/
  current : Handle

/-! ## 1. First hops -/

/-- The exits of the root through which the node `w` is reached from the vertex `v`, over `link` if
    `v` is a router.

    * From the root, a neighbouring router is reached at its own address on the link back, through
      the interface on `link`; an attached network needs no next hop.
    * From a network, a router takes over the exits of the network. Where the network is attached
      to the root, the router's own addresses on the network become the next hops.
    * Anything else takes over the exits of `v`. -/
def firstHops (resolve : Resolver) (fromRoot : Bool) (v : Vertex) (w : Node) (link : Option Link) :
    List Exit :=
  if fromRoot then
    match w.kind with
    | .router _ =>
      (w.kind.linkTo? v.id).toList.map fun back =>
        ⟨back.data, link.bind fun l => resolve l.data .hostMask⟩
    | .network mask _ => [⟨.unspecified, resolve w.id mask⟩]
  else
    match v.kind, w.kind with
    | .network _ _, .router _ =>
      v.exits.flatMap fun e =>
        if e.nextHop = .unspecified then
          (w.kind.transitLinks.filter (·.id == v.id)).map fun back => ⟨back.data, e.interface⟩
        else
          [e]
    | _, _ => v.exits

namespace Exploration

/-! ## 2. Relaxation -/

/-- A node seen for the first time becomes a vertex and a candidate. -/
def discover (s : Exploration) (w : Node) (distance : Metric) (exits : List Exit) : Exploration :=
  { s with
    tree := s.tree.insert ((((Vertex.ofNode w).setExits exits).setDistance distance).setParent s.current)
    queue := s.queue.push s.tree.size w.id distance
    database := s.database.mark w.id .candidate }

/-- A candidate reached at its own distance keeps both paths. -/
def merge (s : Exploration) (c : Handle) (exits : List Exit) : Exploration :=
  { s with tree := s.tree.modify c fun x => (x.mergeExits exits).mergeParents [s.current] }

/-- A candidate reached at a shorter distance forgets its earlier paths. -/
def improve (s : Exploration) (c : Handle) (id : Address) (distance : Metric) (exits : List Exit) :
    Exploration :=
  { s with
    tree := s.tree.modify c fun x => ((x.setExits exits).setDistance distance).setParent s.current
    queue := s.queue.reorder c id distance }

/-- Reaches a candidate over a further path of the given distance. -/
def reach (s : Exploration) (c : Handle) (id : Address) (distance : Metric) (exits : List Exit) :
    Exploration :=
  match s.tree.vertex? c with
  | none => s
  | some x =>
    if x.distance < distance then s
    else if x.distance = distance then s.merge c exits
    else s.improve c id distance exits

/-- Follows one edge out of the vertex settled last. -/
def relaxEdge (resolve : Resolver) (s : Exploration) (e : Edge) : Exploration :=
  match s.tree.vertex? s.current, s.database.get? e.target with
  | some v, some w =>
    let distance := v.distance.extend e.cost
    let exits := firstHops resolve (s.current == Tree.root) v w e.link
    match w.status with
    | .inTree => s
    | .notExplored => s.discover w distance exits
    | .candidate =>
      match s.queue.find? w.id with
      | some c => s.reach c w.id distance exits
      | none => s
  | _, _ => s

/-- Follows every edge out of the vertex settled last. -/
def relax (resolve : Resolver) (s : Exploration) : Exploration :=
  match s.tree.vertex? s.current with
  | some v => (s.database.edges v.kind).foldl (relaxEdge resolve) s
  | none => s

/-! ## 3. Settling -/

/-- Settles a vertex: its node is in the tree from now on, and its parents know it as a child. -/
def settle (s : Exploration) (h : Handle) (queue : CandidateQueue) : Exploration :=
  { tree := (s.tree.addToParents h).2
    queue := queue
    database :=
      match s.tree.vertex? h with
      | some v => s.database.mark v.id .inTree
      | none => s.database
    current := h }

/-- Settles the first candidate; `none` if there is no candidate. -/
def next? (s : Exploration) : Option Exploration :=
  s.queue.pop?.map fun (h, queue) => s.settle h queue

/-- What falls with every settled vertex. -/
def remaining (s : Exploration) : Nat := 2 * s.database.unexplored + s.queue.size

theorem remaining_discover_le {s : Exploration} {w : Node} {d : Metric} {exits : List Exit}
    (hw : w ∈ s.database.nodes) (hu : w.status = .notExplored) :
    (s.discover w d exits).remaining ≤ s.remaining := by
  have h1 := s.queue.size_push_le s.tree.size w.id d
  have h2 := Database.unexplored_mark_lt hw hu (s := .candidate) (by decide)
  simp only [remaining, discover]
  omega

theorem remaining_reach_le (s : Exploration) (c : Handle) (id : Address) (d : Metric) (exits : List Exit) :
    (s.reach c id d exits).remaining ≤ s.remaining := by
  unfold reach
  split
  · exact Nat.le_refl _
  · split
    · exact Nat.le_refl _
    · split
      · exact Nat.le_refl _
      · have := s.queue.size_reorder_le c id d
        simp only [remaining, improve]
        omega

theorem remaining_relaxEdge_le (resolve : Resolver) (s : Exploration) (e : Edge) :
    (s.relaxEdge resolve e).remaining ≤ s.remaining := by
  unfold relaxEdge
  split
  · rename_i v w hv hw
    dsimp only
    split
    · exact Nat.le_refl _
    · rename_i hu
      exact remaining_discover_le (Database.get?_eq_some_iff.1 hw).1 hu
    · split
      · exact remaining_reach_le ..
      · exact Nat.le_refl _
  · exact Nat.le_refl _

/-- **Relaxing queues no more than it explores.** -/
theorem remaining_relax_le (resolve : Resolver) (s : Exploration) :
    (s.relax resolve).remaining ≤ s.remaining := by
  unfold relax
  split
  · rename_i v hv
    generalize s.database.edges v.kind = es
    clear hv
    induction es generalizing s with
    | nil => exact Nat.le_refl _
    | cons e es ih => exact Nat.le_trans (ih _) (remaining_relaxEdge_le resolve s e)
  · exact Nat.le_refl _

/-- **Settling a candidate leaves less to do.** -/
theorem next?_lt {s s' : Exploration} (h : s.next? = some s') : s'.remaining < s.remaining := by
  unfold next? at h
  obtain ⟨⟨c, q⟩, hp, rfl⟩ := Option.map_eq_some_iff.1 h
  have h1 := CandidateQueue.size_pop? hp
  have h2 : (s.settle c q).database.unexplored ≤ s.database.unexplored := by
    unfold settle
    dsimp only
    split
    · exact Database.unexplored_mark_le _ _ (by decide)
    · exact Nat.le_refl _
  simp only [remaining, settle] at h2 ⊢
  omega

/-- Relaxes and settles until no candidate is left. -/
def explore (resolve : Resolver) (s : Exploration) : Exploration :=
  match _h : (s.relax resolve).next? with
  | some s' => s'.explore resolve
  | none => s.relax resolve
termination_by s.remaining
decreasing_by exact Nat.lt_of_lt_of_le (next?_lt _h) (remaining_relax_le resolve s)

/-- The state in which the root alone is settled. -/
def start (db : Database) (root : Node) : Exploration :=
  { tree := .ofRoot (.ofNode root)
    queue := .empty
    database := db.mark root.id .inTree
    current := Tree.root }

end Exploration

namespace Database

/-- The router that is to be the root of a run. -/
def rootRouter (db : Database) (root : Address) : Except Error Node :=
  match db.get? root with
  | none => .error (.unknownRoot root)
  | some n => if n.kind.isRouter then .ok n else .error (.routing (.rootIsNoRouter root))

/-- The shortest-path tree of a root, and the database with the statuses of the run. All statuses
    are reset first, also where there is no such root. -/
def shortestPathTree (db : Database) (resolve : Resolver) (root : Address) : Except Error Tree × Database :=
  match db.reset.rootRouter root with
  | .error e => (.error e, db.reset)
  | .ok n =>
    let s := (Exploration.start db.reset n).explore resolve
    (.ok s.tree, s.database)

end Database

end LinkState
