import Mathlib.Data.List.Induction

/-!
# The last one under a key

A store that lets a later element take the place of an earlier one with the same key holds, in the
end, the elements that are the last under their keys in the list of everything that was stored
(`LastUnder`). A store that also puts the new element behind all others keeps them in the order in which
they came last (`LaterUnder`).

Both are told by what one more element at the end does: `lastUnder_append`, `LaterUnder.append`.
-/

namespace LinkState

variable {α κ : Type} {key : α → κ} {xs back : List α} {a x y : α}

/-- The element stands in the list, and behind it nothing has its key. -/
def LastUnder (key : α → κ) (xs : List α) (x : α) : Prop :=
  ∃ front back, xs = front ++ x :: back ∧ ∀ y ∈ back, key y ≠ key x

/-- Both are the last under their keys, and the second one stands behind the first. -/
def LaterUnder (key : α → κ) (xs : List α) (x y : α) : Prop :=
  ∃ front back, xs = front ++ x :: back ∧ (∀ z ∈ back, key z ≠ key x) ∧ LastUnder key back y

theorem not_lastUnder_nil : ¬ LastUnder key [] x := by
  rintro ⟨front, back, hxs, _⟩
  cases front <;> cases hxs

theorem LastUnder.mem (h : LastUnder key xs x) : x ∈ xs := by
  obtain ⟨front, back, rfl, _⟩ := h
  exact List.mem_append_right _ List.mem_cons_self

/-- The element at the end is the last under its key. -/
theorem lastUnder_append_self : LastUnder key (xs ++ [x]) x :=
  ⟨xs, [], rfl, fun _ hy => absurd hy List.not_mem_nil⟩

/-- Nothing behind the element has its key when one of another key comes there, either. -/
theorem key_ne_of_append (hback : ∀ y ∈ back, key y ≠ key x) (hne : key x ≠ key a) :
    ∀ y ∈ back ++ [a], key y ≠ key x :=
  List.forall_mem_append.2 ⟨hback, List.forall_mem_singleton.2 hne.symm⟩

/-- An element of another key at the end leaves the last ones what they are. -/
theorem LastUnder.append (h : LastUnder key xs x) (hne : key x ≠ key a) : LastUnder key (xs ++ [a]) x := by
  obtain ⟨front, back, rfl, hback⟩ := h
  exact ⟨front, back ++ [a], List.append_assoc .., key_ne_of_append hback hne⟩

/-- **One more element** is the last under its key, in place of any other. -/
theorem lastUnder_append : LastUnder key (xs ++ [a]) x ↔ x = a ∨ LastUnder key xs x ∧ key x ≠ key a := by
  constructor
  · rintro ⟨front, back, hxs, hback⟩
    rcases List.eq_nil_or_concat back with rfl | ⟨back, b, rfl⟩
    · obtain ⟨_, ha⟩ := List.append_inj' hxs rfl
      exact .inl (List.singleton_inj.1 ha).symm
    · have hxs : xs ++ [a] = (front ++ x :: back) ++ [b] := by simpa using hxs
      obtain ⟨hxs, ha⟩ := List.append_inj' hxs rfl
      rw [← List.singleton_inj.1 ha] at hback
      have hmem : ∀ y, y ∈ back ∨ y = a → key y ≠ key x := by simpa using hback
      exact .inr ⟨⟨front, back, hxs, fun y hy => hmem y (.inl hy)⟩, (hmem a (.inr rfl)).symm⟩
  · rintro (rfl | ⟨h, hne⟩)
    · exact lastUnder_append_self
    · exact h.append hne

/-- Every key that occurs has a last element. -/
theorem exists_lastUnder [DecidableEq κ] (hx : x ∈ xs) : ∃ y, LastUnder key xs y ∧ key y = key x := by
  induction xs using List.reverseRecOn with
  | nil => cases hx
  | append_singleton xs a ih =>
    by_cases hk : key a = key x
    · exact ⟨a, lastUnder_append_self, hk⟩
    · have hxs : x ∈ xs := (List.mem_append.1 hx).resolve_right fun h => hk (by rw [List.mem_singleton.1 h])
      obtain ⟨y, hy, hyx⟩ := ih hxs
      exact ⟨y, hy.append fun h => hk (h.symm.trans hyx), hyx⟩

/-- A new element stands behind all those that it does not replace. -/
theorem LastUnder.laterUnder (h : LastUnder key xs x) (hne : key x ≠ key a) : LaterUnder key (xs ++ [a]) x a := by
  obtain ⟨front, back, rfl, hback⟩ := h
  exact ⟨front, back ++ [a], List.append_assoc .., key_ne_of_append hback hne, lastUnder_append_self⟩

/-- An element of another key at the end leaves the order of the last ones. -/
theorem LaterUnder.append (h : LaterUnder key xs x y) (hx : key x ≠ key a) (hy : key y ≠ key a) :
    LaterUnder key (xs ++ [a]) x y := by
  obtain ⟨front, back, rfl, hback, hlast⟩ := h
  exact ⟨front, back ++ [a], List.append_assoc .., key_ne_of_append hback hx, hlast.append hy⟩

end LinkState
