import LinkState.Vertex

/-!
# Shortest-path trees

A tree is an arena of vertices; the root has handle 0 and a vertex keeps the handle that it was
inserted under. Parents and children are recorded apart: a vertex holds its parents, and
`addToParents` makes it a child of each of them.

`depthFirst` walks the children from the root. The walk keeps a stack of handles that it has marked
and not yet visited: the one on top is visited next, and its unmarked children are marked and put
on the stack, the first child on top. A visit takes one handle off the stack, and every handle it
puts there was unmarked before, so `2 · unmarked + stacked` falls (`stackChildren_le`).

In a hand-made tree a handle may lead outside the arena. Then the operation breaks off: its answer
is `none`, and the tree beside it holds what was changed until then.
-/

namespace LinkState

/-- The vertices of a tree; handles are positions. -/
structure Tree where
  vertices : List Vertex
deriving DecidableEq

namespace Tree

/-! ## 1. The arena -/

/-- The tree of a root alone. -/
def ofRoot (v : Vertex) : Tree := ⟨[v]⟩

/-- The handle of the root. -/
def root : Handle := 0

def size (t : Tree) : Nat := t.vertices.length

def vertex? (t : Tree) (h : Handle) : Option Vertex := t.vertices[h]?

/-- Changes the vertex under a handle; outside the arena nothing changes. -/
def modify (t : Tree) (h : Handle) (f : Vertex → Vertex) : Tree := ⟨t.vertices.modify h f⟩

/-- Inserts a vertex at the end of the arena; its handle is the size before. -/
def insert (t : Tree) (v : Vertex) : Tree := ⟨t.vertices ++ [v]⟩

/-- The first vertex with an identifier. -/
def find? (t : Tree) (id : Address) : Option Vertex := t.vertices.find? (·.id == id)

@[simp] theorem size_insert (t : Tree) (v : Vertex) : (t.insert v).size = t.size + 1 := by
  simp [insert, size]

@[simp] theorem size_modify (t : Tree) (h : Handle) (f : Vertex → Vertex) : (t.modify h f).size = t.size := by
  simp [modify, size]

theorem vertex?_modify (t : Tree) (h k : Handle) (f : Vertex → Vertex) :
    (t.modify h f).vertex? k = if h = k then (t.vertex? k).map f else t.vertex? k := by
  simp only [modify, vertex?, List.getElem?_modify]
  split <;> simp

theorem vertex?_insert_self (t : Tree) (v : Vertex) : (t.insert v).vertex? t.size = some v := by
  simp [insert, vertex?, size]

/-! ## 2. Children -/

/-- Makes `child` a child of the parents in turn, up to the first that is no vertex. -/
def addChildTo (child : Handle) : List Handle → Tree → Option Unit × Tree
  | [], t => (some (), t)
  | p :: ps, t =>
    match t.vertex? p with
    | none => (none, t)
    | some _ => addChildTo child ps (t.modify p (·.addChild child))

/-- Makes a vertex a child of each of its parents. -/
def addToParents (t : Tree) (child : Handle) : Option Unit × Tree :=
  match t.vertex? child with
  | none => (none, t)
  | some v => addChildTo child v.parents t

/-! ## 3. The depth-first walk -/

def clearProcessed (t : Tree) : Tree := ⟨t.vertices.map (·.setProcessed false)⟩

/-- Marks a vertex as come past. -/
def mark (t : Tree) (h : Handle) : Tree := t.modify h (·.setProcessed true)

/-- How many vertices the walk has not come past. -/
def unprocessed (t : Tree) : Nat := t.vertices.countP (!·.processed)

/-- Marks the children that are not marked, in turn, and puts them on the stack. -/
def stackChildren : List Handle → Tree → List Handle → Option (List Handle) × Tree
  | [], t, stack => (some stack, t)
  | c :: cs, t, stack =>
    match t.vertex? c with
    | none => (none, t)
    | some v =>
      if v.processed then stackChildren cs t stack
      else stackChildren cs (t.mark c) (c :: stack)

theorem unprocessed_mark {t : Tree} {h : Handle} {v : Vertex} (hv : t.vertex? h = some v)
    (hp : v.processed = false) : (t.mark h).unprocessed + 1 = t.unprocessed := by
  obtain ⟨vs⟩ := t
  simp only [vertex?, mark, modify, unprocessed] at hv ⊢
  induction vs generalizing h with
  | nil => simp at hv
  | cons w ws ih =>
    cases h with
    | zero =>
      simp only [List.length_cons, Nat.zero_lt_succ, List.getElem?_eq_getElem, List.getElem_cons_zero,
        Option.some.injEq] at hv
      subst hv
      simp [Vertex.setProcessed, hp]
    | succ h =>
      have := ih (h := h) (by simpa using hv)
      simp only [List.modify_succ_cons, List.countP_cons]
      omega

/-- **The measure of the walk never rises while children are stacked.** -/
theorem stackChildren_le {cs : List Handle} : ∀ {t t' : Tree} {stack stack' : List Handle},
    stackChildren cs t stack = (some stack', t') →
      2 * t'.unprocessed + stack'.length ≤ 2 * t.unprocessed + stack.length := by
  induction cs with
  | nil =>
    intro t t' stack stack' h
    simp only [stackChildren, Prod.mk.injEq, Option.some.injEq] at h
    obtain ⟨rfl, rfl⟩ := h
    exact Nat.le_refl _
  | cons c cs ih =>
    intro t t' stack stack' h
    unfold stackChildren at h
    split at h
    · simp at h
    · rename_i v hv
      split at h
      · exact ih h
      · rename_i hp
        have h1 := ih h
        have h2 := unprocessed_mark hv (by simpa using hp)
        simp only [List.length_cons] at h1
        omega

/-- Visits the handle on top of the stack, then what its children put there, then the rest. -/
def walk (t : Tree) (stack : List Handle) : Option (List Handle) × Tree :=
  match stack with
  | [] => (some [], t)
  | h :: rest =>
    match t.vertex? h with
    | none => (none, t)
    | some v =>
      match _hs : stackChildren v.children.reverse t rest with
      | (none, t') => (none, t')
      | (some stack', t') =>
        let (order, t'') := walk t' stack'
        (order.map (h :: ·), t'')
termination_by 2 * t.unprocessed + stack.length
decreasing_by
  have := stackChildren_le _hs
  simp only [List.length_cons]
  omega

/-- The handles in depth-first order from the root, and the tree with exactly those marked. -/
def depthFirst (t : Tree) : Option (List Handle) × Tree := (t.clearProcessed.mark root).walk [root]

end Tree

end LinkState
