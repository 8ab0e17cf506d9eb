/-!
# Lists without repetition

Parents, children and exits are collected as lists that keep the order of first arrival and hold
every element once. `mem_merge` and `nodup_merge` are all that later proofs need of them.
-/

namespace LinkState.Distinct

variable {α : Type} [DecidableEq α]

/-- Appends an element that is not there yet. -/
def add (xs : List α) (x : α) : List α := if x ∈ xs then xs else xs ++ [x]

/-- Appends, in turn, the elements that are not there yet. -/
def merge (xs ys : List α) : List α := ys.foldl add xs

@[simp] theorem mem_add {xs : List α} {x a : α} : a ∈ add xs x ↔ a ∈ xs ∨ a = x := by
  unfold add
  split
  · rename_i h
    exact ⟨.inl, fun h' => h'.elim id fun e => e ▸ h⟩
  · simp

theorem nodup_add {xs : List α} {x : α} (h : xs.Nodup) : (add xs x).Nodup := by
  unfold add
  split
  · exact h
  · rename_i hx
    refine List.nodup_append.2 ⟨h, by simp, fun a ha b hb => ?_⟩
    rw [List.mem_singleton.1 hb]
    exact fun e => hx (e ▸ ha)

/-- **Merging is union.** -/
@[simp] theorem mem_merge {ys : List α} : ∀ {xs : List α} {a : α}, a ∈ merge xs ys ↔ a ∈ xs ∨ a ∈ ys := by
  induction ys with
  | nil => intro xs a; simp [merge]
  | cons y ys ih =>
    intro xs a
    have : merge xs (y :: ys) = merge (add xs y) ys := rfl
    rw [this, ih, mem_add, List.mem_cons, or_assoc]

/-- **Merging repeats nothing.** -/
theorem nodup_merge {ys : List α} : ∀ {xs : List α}, xs.Nodup → (merge xs ys).Nodup := by
  induction ys with
  | nil => intro xs h; exact h
  | cons y ys ih => intro xs h; exact ih (nodup_add h)

omit [DecidableEq α] in
/-- A list without repetition that holds one element is that element alone. -/
theorem eq_singleton {xs : List α} {a : α} (h : xs.Nodup) (hmem : ∀ x, x ∈ xs ↔ x = a) : xs = [a] := by
  refine List.perm_singleton.1 ((List.perm_ext_iff_of_nodup h (by simp)).2 fun x => ?_)
  rw [hmem, List.mem_singleton]

end LinkState.Distinct
