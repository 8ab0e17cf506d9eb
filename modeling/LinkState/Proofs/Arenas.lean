import LinkState.Proofs.Children
import LinkState.Proofs.PreOrder

/-!
# Arenas that the operations make

A tree comes about by operations only: it begins with a root, takes in further vertices, changes those
that it holds, makes vertices children of their parents, and is walked. A vertex likewise begins without
children and gets them by `Vertex.addChild`, which adds none a second time.

* `Vertex.Changes.nodup_children`: no change of a vertex repeats a child;
* `Tree.Built.nodup`: so in an arena that operations have made every vertex has its children once each,
  whatever was done in between and wherever a walk broke off;
* `Tree.Built.branches`: such an arena branches like a tree as soon as no vertex has two parents and the
  root has none;
* `Database.built_shortestPathTree`: the tree of a run is such an arena, so its children are listed once
  each, too.
-/

namespace LinkState

/-! ## 1. Vertices -/

namespace Vertex

/-- What operations on vertices, one after the other, make of a vertex. -/
inductive Changes : (Vertex → Vertex) → Prop
  | none : Changes fun v => v
  | setDistance {f : Vertex → Vertex} (hf : Changes f) (d : Metric) : Changes fun v => (f v).setDistance d
  | setExits {f : Vertex → Vertex} (hf : Changes f) (exits : List Exit) : Changes fun v => (f v).setExits exits
  | mergeExits {f : Vertex → Vertex} (hf : Changes f) (exits : List Exit) : Changes fun v => (f v).mergeExits exits
  | setParent {f : Vertex → Vertex} (hf : Changes f) (p : Handle) : Changes fun v => (f v).setParent p
  | mergeParents {f : Vertex → Vertex} (hf : Changes f) (ps : List Handle) : Changes fun v => (f v).mergeParents ps
  | addChild {f : Vertex → Vertex} (hf : Changes f) (c : Handle) : Changes fun v => (f v).addChild c
  | setProcessed {f : Vertex → Vertex} (hf : Changes f) (b : Bool) : Changes fun v => (f v).setProcessed b

/-- **No change repeats a child.** -/
theorem Changes.nodup_children {f : Vertex → Vertex} (hf : Changes f) {v : Vertex} (hv : v.children.Nodup) :
    (f v).children.Nodup := by
  induction hf with
  | addChild _ c ih => exact Distinct.nodup_add ih
  | none => exact hv
  | setDistance _ _ ih | setExits _ _ ih | mergeExits _ _ ih | setParent _ _ ih | mergeParents _ _ ih
  | setProcessed _ _ ih => exact ih

/-- A vertex begins without children. -/
theorem Changes.nodup_children_ofNode {f : Vertex → Vertex} (hf : Changes f) (n : Node) :
    (f (.ofNode n)).children.Nodup :=
  hf.nodup_children .nil

end Vertex

/-! ## 2. Arenas -/

namespace Tree

/-- **The arenas that the operations make.** A vertex is taken in with the changes that it has undergone
    outside the arena. -/
inductive Built : Tree → Prop
  | ofRoot (n : Node) {f : Vertex → Vertex} (hf : Vertex.Changes f) : Built (.ofRoot (f (.ofNode n)))
  | insert {t : Tree} (ht : Built t) (n : Node) {f : Vertex → Vertex} (hf : Vertex.Changes f) :
    Built (t.insert (f (.ofNode n)))
  | modify {t : Tree} (ht : Built t) (h : Handle) {f : Vertex → Vertex} (hf : Vertex.Changes f) : Built (t.modify h f)
  | addToParents {t : Tree} (ht : Built t) (h : Handle) : Built (t.addToParents h).2
  | clearProcessed {t : Tree} (ht : Built t) : Built t.clearProcessed
  | depthFirst {t : Tree} (ht : Built t) : Built t.depthFirst.2

namespace Built

variable {t : Tree}

/-- **Every vertex has its children once each.** -/
theorem nodup (hb : t.Built) : ∀ p, (t.childrenOf p).Nodup := by
  induction hb with
  | ofRoot n hf =>
    intro p
    cases p with
    | zero => exact hf.nodup_children_ofNode n
    | succ p => exact .nil
  | @insert t _ n f hf ih =>
    intro p
    rw [childrenOf, vertex?_insert]
    split
    · exact hf.nodup_children_ofNode n
    · exact ih p
  | @modify t _ h f hf ih =>
    intro p
    rw [childrenOf_modify]
    split
    · cases hv : t.vertex? p with
      | none => exact .nil
      | some v => exact hf.nodup_children (childrenOf_of_vertex? hv ▸ ih p)
    · exact ih p
  | @addToParents t _ h ih =>
    intro p
    unfold Tree.addToParents
    split
    · exact ih p
    · exact nodup_childrenOf_addChildTo h p (ih p)
  | clearProcessed _ ih => exact fun p => by rw [childrenOf_clearProcessed]; exact ih p
  | @depthFirst t _ ih =>
    have hsame : t.depthFirst.2.clearProcessed = t.clearProcessed := clearProcessed_depthFirst rfl
    rw [childrenOf_eq_of_clearProcessed hsame]
    exact ih

/-- **Where no vertex has two parents and the root has none**, an arena branches like a tree. -/
theorem branches (hb : t.Built) (hparent : ∀ p q, ∀ c ∈ t.childrenOf p, c ∈ t.childrenOf q → p = q)
    (hroot : ∀ p, Tree.root ∉ t.childrenOf p) : t.Branches :=
  ⟨hparent, hroot, hb.nodup⟩

end Built

end Tree

/-! ## 3. The tree of a run -/

namespace Exploration

open Vertex (Changes)

theorem built_relaxEdge (resolve : Resolver) {s : Exploration} (hs : s.tree.Built) (e : Edge) :
    (s.relaxEdge resolve e).tree.Built := by
  unfold relaxEdge
  split
  · dsimp only
    split
    · exact hs
    · exact hs.insert _ (((Changes.none.setExits _).setDistance _).setParent _)
    · split
      · unfold reach
        split
        · exact hs
        · split
          · exact hs
          · split
            · exact hs.modify _ ((Changes.none.mergeExits _).mergeParents _)
            · exact hs.modify _ (((Changes.none.setExits _).setDistance _).setParent _)
      · exact hs
  · exact hs

/-- **Following edges and settling are operations on the tree.** -/
theorem built_relax (resolve : Resolver) {s : Exploration} (hs : s.tree.Built) : (s.relax resolve).tree.Built := by
  rw [s.relax_eq resolve]
  generalize s.outgoing = es
  induction es generalizing s with
  | nil => exact hs
  | cons e es ih => exact ih (built_relaxEdge resolve hs e)

theorem built_next? {s s' : Exploration} (hs : s.tree.Built) (hn : s.next? = some s') : s'.tree.Built := by
  obtain ⟨h, q, _, rfl⟩ := next?_eq_some.1 hn
  exact hs.addToParents h

theorem built_explore (resolve : Resolver) {s : Exploration} (hs : s.tree.Built) : (s.explore resolve).tree.Built := by
  obtain ⟨last, hlast, _, hend⟩ := explore_induction (P := fun _ s => s.tree.Built)
    (fun _ _ _ hP hn => built_next? (built_relax resolve hP) hn) hs
  rw [hend]
  exact built_relax resolve hlast

end Exploration

/-- **The tree of a run is made by the operations.** -/
theorem Database.built_shortestPathTree {db db' : Database} {resolve : Resolver} {root : Address} {t : Tree}
    (hrun : db.shortestPathTree resolve root = (.ok t, db')) : t.Built := by
  unfold shortestPathTree at hrun
  split at hrun
  · cases hrun
  · cases hrun
    exact Exploration.built_explore resolve (.ofRoot _ .none)

end LinkState
