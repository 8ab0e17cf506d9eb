import LinkState.Tree

/-!
# The labels of a tree

The label of a vertex is everything that a run finds out about it on the way to the root: its
distance, exits and parents, but neither its children nor the mark of a walk. Settling a vertex
writes children only, so it leaves every label as it is (`label?_addToParents`); inserting and
changing a vertex touch the label of one handle (`label?_insert`, `label?_modify`).
-/

namespace LinkState

namespace Vertex

/-- The vertex without its children and its mark. -/
def label (v : Vertex) : Vertex := { v with children := [], processed := false }

/-- The node that the vertex was made of, its status left open. -/
def node (v : Vertex) : Node := { id := v.id, kind := v.kind }

@[simp] theorem id_label (v : Vertex) : v.label.id = v.id := rfl

@[simp] theorem kind_label (v : Vertex) : v.label.kind = v.kind := rfl

@[simp] theorem distance_label (v : Vertex) : v.label.distance = v.distance := rfl

@[simp] theorem exits_label (v : Vertex) : v.label.exits = v.exits := rfl

@[simp] theorem parents_label (v : Vertex) : v.label.parents = v.parents := rfl

@[simp] theorem node_label (v : Vertex) : v.label.node = v.node := rfl

theorem label_addChild (v : Vertex) (c : Handle) : (v.addChild c).label = v.label := rfl

end Vertex

namespace Tree

/-- The label under a handle. -/
def label? (t : Tree) (h : Handle) : Option Vertex := (t.vertex? h).map Vertex.label

theorem label?_eq_some {t : Tree} {h : Handle} {w : Vertex} :
    t.label? h = some w ↔ ∃ v, t.vertex? h = some v ∧ v.label = w :=
  Option.map_eq_some_iff

theorem label?_of_vertex? {t : Tree} {h : Handle} {v : Vertex} (hv : t.vertex? h = some v) :
    t.label? h = some v.label :=
  label?_eq_some.2 ⟨v, hv, rfl⟩

theorem vertex?_lt {t : Tree} {h : Handle} {v : Vertex} (hv : t.vertex? h = some v) : h < t.size :=
  (List.getElem?_eq_some_iff.1 hv).1

theorem label?_size (t : Tree) : t.label? t.size = none := by
  rw [label?, vertex?, size, List.getElem?_eq_none (Nat.le_refl _), Option.map_none]

theorem exists_vertex? {t : Tree} {h : Handle} (hh : h < t.size) : ∃ v, t.vertex? h = some v :=
  ⟨t.vertices[h], List.getElem?_eq_getElem hh⟩

theorem vertex?_insert (t : Tree) (v : Vertex) (h : Handle) :
    (t.insert v).vertex? h = if h = t.size then some v else t.vertex? h := by
  split
  · rename_i he
    subst he
    exact t.vertex?_insert_self v
  · rename_i he
    show (t.vertices ++ [v])[h]? = t.vertices[h]?
    rcases Nat.lt_or_ge h t.vertices.length with hlt | hge
    · exact List.getElem?_append_left hlt
    · have hgt : t.vertices.length < h := Nat.lt_of_le_of_ne hge (Ne.symm he)
      rw [List.getElem?_eq_none hge, List.getElem?_eq_none (by simpa using Nat.succ_le_of_lt hgt)]

theorem label?_insert (t : Tree) (v : Vertex) (h : Handle) :
    (t.insert v).label? h = if h = t.size then some v.label else t.label? h := by
  rw [label?, vertex?_insert]
  split <;> rfl

/-- A change that reads and writes the label only changes the label of its own handle. -/
theorem label?_modify (t : Tree) (k : Handle) (f : Vertex → Vertex) (hf : ∀ v, (f v).label = f v.label)
    (h : Handle) : (t.modify k f).label? h = if h = k then (t.label? h).map f else t.label? h := by
  rw [label?, vertex?_modify]
  by_cases hk : h = k
  · rw [if_pos hk.symm, if_pos hk, label?, Option.map_map, Option.map_map]
    exact congrArg (Option.map · (t.vertex? h)) (funext hf)
  · rw [if_neg (fun e => hk e.symm), if_neg hk, label?]

theorem label?_addChildTo (c : Handle) : ∀ (ps : List Handle) (t : Tree),
    (addChildTo c ps t).2.label? = t.label?
  | [], t => rfl
  | p :: ps, t => by
    unfold addChildTo
    split
    · rfl
    · rw [label?_addChildTo c ps]
      funext h
      rw [label?, vertex?_modify]
      split
      · rw [Option.map_map]
        exact congrArg (Option.map · (t.vertex? h)) (funext fun v => v.label_addChild c)
      · rfl

/-- **Making a vertex a child of its parents changes no label.** -/
theorem label?_addToParents (t : Tree) (c : Handle) : (t.addToParents c).2.label? = t.label? := by
  unfold addToParents
  split
  · rfl
  · exact label?_addChildTo c _ t

end Tree

end LinkState
