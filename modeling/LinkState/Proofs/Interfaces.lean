import Mathlib.Data.Nat.Find
import LinkState.Interface
import LinkState.Proofs.LastOccurrence

/-!
# Which interface an address resolves to

A mask is contiguous if no bit is set below one that is cleared (`Address.Contiguous`). It then has a
length, and the length gives the mask back (`Address.prefixLength?_isSome_iff_contiguous`,
`Address.ofPrefixLength_of_prefixLength?`), so that it makes no difference whether addresses are
compared under the mask or under the mask of its length (`InterfaceTable.resolve_eq_byLength`).

A table keeps the interface that was added last with each index, in the order of these additions
(`InterfaceTable.KeepsLast`). Adding an index once more moves it to the end, which may change the
interface that an address resolves to: that is the first one that agrees on the bits of the mask
(`InterfaceTable.resolve_eq_some_iff`).
-/

namespace LinkState

/-! ## 1. Contiguous masks -/

namespace Address

/-- The set bits come first: every bit in front of one that is set is set, too. Bits count from the
    highest one down. -/
def Contiguous (mask : Address) : Prop := ∀ i j, i < j → mask.bits.getMsbD j = true → mask.bits.getMsbD i = true

/-- The addresses have the same bits wherever the mask has a bit set. -/
def Agrees (a mask b : Address) : Prop := ∀ i, mask.bits.getMsbD i = true → a.bits.getMsbD i = b.bits.getMsbD i

theorem ext_getMsbD {a b : Address} (h : ∀ i, a.bits.getMsbD i = b.bits.getMsbD i) : a = b := by
  cases a; cases b
  exact congrArg mk (BitVec.eq_of_getMsbD_eq fun i _ => h i)

/-- The mask of a length has that many bits set. -/
theorem getMsbD_ofPrefixLength {length : Nat} (h : length ≤ 32) (i : Nat) :
    (ofPrefixLength length).bits.getMsbD i = decide (i < length) := by
  rw [ofPrefixLength, BitVec.getMsbD_shiftLeft, BitVec.getMsbD_allOnes]
  exact decide_eq_decide.2 (by omega)

/-- **A mask has a length exactly if it is contiguous.** -/
theorem prefixLength?_isSome_iff_contiguous (mask : Address) : mask.prefixLength?.isSome ↔ mask.Contiguous := by
  rw [prefixLength?_isSome_iff]
  constructor
  · rintro ⟨length, hle, rfl⟩ i j hij hj
    rw [getMsbD_ofPrefixLength hle] at hj ⊢
    exact decide_eq_true (Nat.lt_trans hij (of_decide_eq_true hj))
  · intro hc
    have hlast : mask.bits.getMsbD 32 = false := BitVec.getMsbD_of_ge _ _ (Nat.le_refl _)
    have hend : ∃ i, mask.bits.getMsbD i = false := ⟨32, hlast⟩
    -- the length is the place of the first bit that is cleared
    have hle : Nat.find hend ≤ 32 := Nat.find_min' hend hlast
    refine ⟨Nat.find hend, hle, ext_getMsbD fun i => ?_⟩
    rw [getMsbD_ofPrefixLength hle]
    by_cases hi : i < Nat.find hend
    · rw [decide_eq_true hi]
      exact eq_true_of_ne_false (Nat.find_min hend hi)
    · rw [decide_eq_false hi]
      refine eq_false_of_ne_true fun hset => ?_
      rcases Nat.eq_or_lt_of_not_lt hi with he | hlt
      · rw [he, Nat.find_spec hend] at hset
        cases hset
      · have := hc _ _ hlt hset
        rw [Nat.find_spec hend] at this
        cases this

/-- The length gives the mask back. -/
theorem ofPrefixLength_of_prefixLength? {mask : Address} {length : Nat} (h : mask.prefixLength? = some length) :
    ofPrefixLength length = mask := by
  unfold prefixLength? at h
  have hlength := List.find?_some h
  exact (of_decide_eq_true hlength).symm

/-- Addresses agree on the bits of a mask exactly if the mask leaves the same of them. -/
theorem combine_eq_combine_iff {a b mask : Address} : a.combine mask = b.combine mask ↔ a.Agrees mask b := by
  constructor
  · intro h i hi
    have hbit := congrArg (fun c => c.bits.getMsbD i) h
    simpa [combine, BitVec.getMsbD_and, hi] using hbit
  · intro h
    refine ext_getMsbD fun i => ?_
    rw [combine, combine, BitVec.getMsbD_and, BitVec.getMsbD_and]
    cases hi : mask.bits.getMsbD i with
    | true => rw [h i hi]
    | false => rw [Bool.and_false, Bool.and_false]

end Address

namespace InterfaceTable

/-! ## 2. What a table keeps -/

/-- **The last interface with each index**, in the order in which these were added. -/
structure KeepsLast (t : InterfaceTable) (is : List Interface) : Prop where
  mem_index_iff : ∀ index, index ∈ t.interfaces.map (·.index) ↔ index ∈ is.map (·.index)
  nodup : (t.interfaces.map (·.index)).Nodup
  mem_iff : ∀ i, i ∈ t.interfaces ↔ LastUnder Interface.index is i
  ordered : t.interfaces.Pairwise (LaterUnder Interface.index is)

theorem mem_add {t : InterfaceTable} {i j : Interface} :
    j ∈ (t.add i).interfaces ↔ j = i ∨ j ∈ t.interfaces ∧ j.index ≠ i.index := by
  simp only [add, List.mem_append, List.mem_filter, List.mem_singleton, bne_iff_ne, or_comm]

theorem ofList_append (is : List Interface) (i : Interface) : ofList (is ++ [i]) = (ofList is).add i := by
  simp [ofList]

theorem mem_ofList {is : List Interface} {i : Interface} :
    i ∈ (ofList is).interfaces ↔ LastUnder Interface.index is i := by
  induction is using List.reverseRecOn generalizing i with
  | nil => exact iff_of_false List.not_mem_nil not_lastUnder_nil
  | append_singleton is j ih => rw [ofList_append, mem_add, ih, lastUnder_append]

theorem nodup_index_ofList (is : List Interface) : ((ofList is).interfaces.map (·.index)).Nodup := by
  induction is using List.reverseRecOn with
  | nil => exact .nil
  | append_singleton is i ih =>
    rw [ofList_append]
    exact nodup_index_add ih i

theorem pairwise_ofList (is : List Interface) : (ofList is).interfaces.Pairwise (LaterUnder Interface.index is) := by
  induction is using List.reverseRecOn with
  | nil => exact .nil
  | append_singleton is i ih =>
    have hne : ∀ j ∈ (ofList is).interfaces.filter (·.index != i.index), j.index ≠ i.index := fun j hj =>
      bne_iff_ne.1 (List.mem_filter.1 hj).2
    rw [ofList_append, add]
    refine List.pairwise_append.2 ⟨?_, List.pairwise_singleton _ _, fun j hj k hk => ?_⟩
    · exact List.Pairwise.imp_of_mem (fun hj hk hjk => hjk.append (hne _ hj) (hne _ hk)) (ih.filter _)
    · rw [List.mem_singleton.1 hk]
      exact (mem_ofList.1 (List.mem_filter.1 hj).1).laterUnder (hne j hj)

/-- **A table keeps the last additions.** -/
theorem keepsLast_ofList (is : List Interface) : (ofList is).KeepsLast is where
  mem_index_iff index := by
    simp only [List.mem_map, mem_ofList]
    constructor
    · rintro ⟨i, hi, rfl⟩
      exact ⟨i, hi.mem, rfl⟩
    · rintro ⟨i, hi, rfl⟩
      exact exists_lastUnder hi
  nodup := nodup_index_ofList is
  mem_iff _ := mem_ofList
  ordered := pairwise_ofList is

/-! ## 3. What an address resolves to -/

/-- **The length of a mask is all that is needed of it.** -/
theorem resolve_eq_byLength (t : InterfaceTable) (address mask : Address) :
    t.resolve address mask = mask.prefixLength?.bind fun length =>
      (t.interfaces.find? fun i => i.address.combine (.ofPrefixLength length) ==
        address.combine (.ofPrefixLength length)).map (·.index) := by
  unfold resolve
  cases h : mask.prefixLength? with
  | none => rfl
  | some length =>
    rw [if_pos Option.isSome_some, Option.bind_some, Address.ofPrefixLength_of_prefixLength? h]

/-- The interface of this index is the first that agrees with the address on the bits of the mask. -/
def FirstAgrees (t : InterfaceTable) (address mask : Address) (index : UInt32) : Prop :=
  ∃ front i back, t.interfaces = front ++ i :: back ∧ i.index = index ∧ i.address.Agrees mask address ∧
    ∀ j ∈ front, ¬ j.address.Agrees mask address

section Resolve

variable {t : InterfaceTable} {address mask : Address} {index : UInt32}

/-- **An address resolves to the first interface that agrees with it**, under a contiguous mask. -/
theorem resolve_eq_some_iff :
    t.resolve address mask = some index ↔ mask.Contiguous ∧ t.FirstAgrees address mask index := by
  rw [← Address.prefixLength?_isSome_iff_contiguous, resolve]
  by_cases hc : mask.prefixLength?.isSome
  · rw [if_pos hc, and_iff_right hc, Option.map_eq_some_iff]
    simp only [List.find?_eq_some_iff_append, beq_iff_eq, Bool.not_eq_true', beq_eq_false_iff_ne,
      Address.combine_eq_combine_iff, ne_eq]
    constructor
    · rintro ⟨i, ⟨hi, front, back, heq, hfront⟩, hindex⟩
      exact ⟨front, i, back, heq, hindex, hi, hfront⟩
    · rintro ⟨front, i, back, heq, hindex, hi, hfront⟩
      exact ⟨i, ⟨hi, front, back, heq, hfront⟩, hindex⟩
  · rw [if_neg hc]
    exact iff_of_false (Option.some_ne_none index).symm fun h => hc h.1

theorem resolve_eq_none_iff :
    t.resolve address mask = none ↔ ¬ mask.Contiguous ∨ ∀ i ∈ t.interfaces, ¬ i.address.Agrees mask address := by
  rw [← Address.prefixLength?_isSome_iff_contiguous, resolve]
  by_cases hc : mask.prefixLength?.isSome
  · rw [if_pos hc, or_iff_right (not_not_intro hc), Option.map_eq_none_iff, List.find?_eq_none]
    simp only [beq_iff_eq, Address.combine_eq_combine_iff]
  · rw [if_neg hc]
    exact iff_of_true rfl (.inl hc)

end Resolve

/-- **Which interface an address resolves to** in the table of any additions: under a mask that is not
    contiguous none does, and under any other the first of the last additions that agrees with it. -/
theorem ofList_resolution (is : List Interface) :
    (ofList is).KeepsLast is ∧ ∀ address mask,
      (∀ index, (ofList is).resolve address mask = some index ↔
        mask.Contiguous ∧ (ofList is).FirstAgrees address mask index) ∧
      ((ofList is).resolve address mask = none ↔
        ¬ mask.Contiguous ∨ ∀ i ∈ (ofList is).interfaces, ¬ i.address.Agrees mask address) ∧
      (ofList is).resolve address mask = mask.prefixLength?.bind fun length =>
        ((ofList is).interfaces.find? fun i => i.address.combine (.ofPrefixLength length) ==
          address.combine (.ofPrefixLength length)).map (·.index) :=
  ⟨keepsLast_ofList is, fun address mask =>
    ⟨fun _ => resolve_eq_some_iff, resolve_eq_none_iff, (ofList is).resolve_eq_byLength address mask⟩⟩

/-- Two interfaces behind which an address may lie: the first one is added once more, and comes second. -/
example :
    (ofList [⟨1, .ofOctets 10 1 1 1, .ofOctets 255 255 255 0⟩, ⟨2, .ofOctets 10 1 1 2, .ofOctets 255 255 0 0⟩,
      ⟨1, .ofOctets 10 1 1 3, .ofOctets 255 0 0 0⟩]).resolve (.ofOctets 10 1 1 9) (.ofOctets 255 255 255 0) =
        some 2 := by
  decide +kernel

end InterfaceTable

end LinkState
