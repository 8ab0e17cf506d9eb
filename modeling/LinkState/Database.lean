import LinkState.Advertisement

/-!
# The link-state database

The database holds one node for every identifier, in ascending order of the identifiers, and the
externals in the order in which they came.

* `insert` puts a node in the place of an earlier one with its identifier and appends an external;
* `get?` finds a node by its identifier (`get?_eq_some_iff`), `getByLinkData?` the router of least
  identifier that has an address on a transit network;
* `reset` and `mark` write statuses and nothing else.

That the identifiers ascend is part of the type, so every identifier occurs once.
-/

namespace LinkState

/-- The nodes are in strictly ascending order of their identifiers. -/
def Ascending (nodes : List Node) : Prop := nodes.Pairwise fun a b => a.id < b.id

/-! ## 1. Nodes in ascending order -/

/-- Puts a node into its place, over an earlier one with the same identifier. -/
def insertNode (n : Node) : List Node → List Node
  | [] => [n]
  | m :: ms =>
    if n.id < m.id then n :: m :: ms
    else if n.id = m.id then n :: ms
    else m :: insertNode n ms

theorem mem_insertNode {n m : Node} : ∀ {ms : List Node}, m ∈ insertNode n ms → m = n ∨ m ∈ ms
  | [], h => by simpa [insertNode] using h
  | k :: ms, h => by
    unfold insertNode at h
    split at h
    · simpa using h
    · split at h
      · rcases List.mem_cons.1 h with h | h
        · exact .inl h
        · exact .inr (List.mem_cons_of_mem _ h)
      · rcases List.mem_cons.1 h with h | h
        · exact .inr (h ▸ List.mem_cons_self)
        · rcases mem_insertNode h with h | h
          · exact .inl h
          · exact .inr (List.mem_cons_of_mem _ h)

/-- **Inserting keeps the order.** -/
theorem ascending_insertNode {n : Node} : ∀ {ms : List Node}, Ascending ms → Ascending (insertNode n ms)
  | [], _ => by simp [insertNode, Ascending]
  | m :: ms, h => by
    have hm := List.pairwise_cons.1 h
    unfold insertNode
    split
    · rename_i hlt
      refine List.pairwise_cons.2 ⟨fun k hk => ?_, h⟩
      rcases List.mem_cons.1 hk with rfl | hk
      · exact hlt
      · exact Nat.lt_trans hlt (hm.1 k hk)
    · split
      · rename_i heq
        exact List.pairwise_cons.2 ⟨fun k hk => heq ▸ hm.1 k hk, hm.2⟩
      · rename_i hlt hne
        refine List.pairwise_cons.2 ⟨fun k hk => ?_, ascending_insertNode hm.2⟩
        rcases mem_insertNode hk with rfl | hk
        · have : m.id.value ≠ k.id.value := fun e => hne (Address.ext_value e).symm
          exact Nat.lt_of_le_of_ne (Nat.le_of_not_lt hlt) this
        · exact hm.1 k hk

/-- A change that keeps the identifiers keeps the order. -/
theorem ascending_map (f : Node → Node) (hf : ∀ n, (f n).id = n.id) {ms : List Node}
    (h : Ascending ms) : Ascending (ms.map f) :=
  List.pairwise_map.2 (h.imp fun hab => by rw [hf, hf]; exact hab)

/-! ## 2. The database -/

/-- The advertisements known in a routing domain. -/
structure Database where
  nodes : List Node
  externals : List External
  ascending : Ascending nodes

namespace Database

/-- A database without advertisements. -/
def empty : Database := ⟨[], [], .nil⟩

instance : Inhabited Database := ⟨empty⟩

theorem ext_parts {a b : Database} (hn : a.nodes = b.nodes) (he : a.externals = b.externals) :
    a = b := by
  cases a; cases b
  simp_all

/-- Stores an advertisement. -/
def insert (db : Database) : Advertisement → Database
  | .node n => { db with nodes := insertNode n db.nodes, ascending := ascending_insertNode db.ascending }
  | .external e => { db with externals := db.externals ++ [e] }

/-- Stores advertisements in turn. -/
def insertAll (db : Database) (ads : List Advertisement) : Database := ads.foldl insert db

/-- The database of the advertisements, stored in turn. -/
def ofList (ads : List Advertisement) : Database := empty.insertAll ads

/-- The node stored under an identifier. -/
def get? (db : Database) (id : Address) : Option Node := db.nodes.find? (·.id == id)

/-- The node of least identifier with a transit link whose own address is `address`. -/
def getByLinkData? (db : Database) (address : Address) : Option Node :=
  db.nodes.find? fun n => n.kind.links.any fun l => l.type == .transitNetwork && l.data == address

def isEmpty (db : Database) : Bool := db.nodes.isEmpty && db.externals.isEmpty

/-- The stored nodes have one identifier each, so an identifier and a member make an answer. -/
theorem get?_eq_some_iff {db : Database} {id : Address} {n : Node} :
    db.get? id = some n ↔ n ∈ db.nodes ∧ n.id = id := by
  unfold get?
  have h := db.ascending
  revert h
  generalize db.nodes = ms
  intro h
  induction ms with
  | nil => simp
  | cons m ms ih =>
    have hm := List.pairwise_cons.1 h
    rw [List.find?_cons]
    split
    · rename_i he
      have he : m.id = id := by simpa using he
      constructor
      · rintro ⟨rfl⟩
        exact ⟨List.mem_cons_self, he⟩
      · rintro ⟨hn, hid⟩
        rcases List.mem_cons.1 hn with rfl | hn
        · rfl
        · have := hm.1 n hn
          rw [Address.lt_iff, he, hid] at this
          exact absurd this (Nat.lt_irrefl _)
    · rename_i he
      have he : m.id ≠ id := by simpa using he
      refine (ih hm.2).trans ?_
      constructor
      · rintro ⟨hn, hid⟩
        exact ⟨List.mem_cons_of_mem _ hn, hid⟩
      · rintro ⟨hn, hid⟩
        rcases List.mem_cons.1 hn with rfl | hn
        · exact absurd hid he
        · exact ⟨hn, hid⟩

/-! ## 3. Statuses -/

/-- Gives every node the status that `f` says. -/
def mapStatus (f : Node → Status) (db : Database) : Database :=
  ⟨db.nodes.map fun n => n.withStatus (f n), db.externals,
    ascending_map (fun n => n.withStatus (f n)) (fun _ => rfl) db.ascending⟩

/-- Writes the status of the node under an identifier; without one nothing changes. -/
def mark (db : Database) (id : Address) (s : Status) : Database :=
  db.mapStatus fun n => if n.id = id then s else n.status

/-- Writes the status of the external at a position; without one nothing changes. -/
def markExternal (db : Database) (index : Nat) (s : Status) : Database :=
  { db with externals := db.externals.modify index (·.withStatus s) }

/-- Every advertisement, the externals included, has not been explored. -/
def reset (db : Database) : Database :=
  { db.mapStatus fun _ => .notExplored with
    externals := db.externals.map (·.withStatus .notExplored) }

/-- How many nodes a run has not yet come upon. -/
def unexplored (db : Database) : Nat := db.nodes.countP (·.status == .notExplored)

/-- Every identifier with its status, the nodes first. -/
def statuses (db : Database) : List (Address × Status) :=
  db.nodes.map (fun n => (n.id, n.status)) ++ db.externals.map fun e => (e.id, e.status)

theorem reset_reset (db : Database) : db.reset.reset = db.reset :=
  ext_parts (by simp [reset, mapStatus, Node.withStatus]) (by simp [reset, mapStatus, External.withStatus])

/-- A mark other than `notExplored` never raises the number of unexplored nodes. -/
theorem unexplored_mark_le (db : Database) (id : Address) {s : Status} (hs : s ≠ .notExplored) :
    (db.mark id s).unexplored ≤ db.unexplored := by
  simp only [unexplored, mark, mapStatus, List.countP_map]
  refine List.countP_mono_left fun n _ h => ?_
  by_cases he : n.id = id
  · simp [he, hs] at h
  · simpa [he] using h

/-- **Marking an unexplored node lowers the number of unexplored nodes.** -/
theorem unexplored_mark_lt {db : Database} {n : Node} (hn : n ∈ db.nodes)
    (hu : n.status = .notExplored) {s : Status} (hs : s ≠ .notExplored) :
    (db.mark n.id s).unexplored < db.unexplored := by
  simp only [unexplored, mark, mapStatus, List.countP_map]
  revert hn
  generalize db.nodes = ms
  intro hn
  have hle : ∀ ks : List Node,
      ks.countP ((·.status == .notExplored) ∘ fun k => k.withStatus (if k.id = n.id then s else k.status)) ≤
        ks.countP (·.status == .notExplored) := fun ks => by
    refine List.countP_mono_left fun k _ h => ?_
    by_cases he : k.id = n.id
    · simp [he, hs] at h
    · simpa [he] using h
  induction ms with
  | nil => cases hn
  | cons m ms ih =>
    rw [List.countP_cons, List.countP_cons]
    rcases List.mem_cons.1 hn with rfl | hn
    · have := hle ms
      simp [hu, hs] at this ⊢
      omega
    · have := ih hn
      by_cases he : m.id = n.id
      · simp [he, hs] at this ⊢
        omega
      · simp [he] at this ⊢
        omega

end Database

end LinkState
