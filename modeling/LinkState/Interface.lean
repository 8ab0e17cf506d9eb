import LinkState.Address

/-!
# Interfaces

A router knows its own interfaces by index. The table keeps one interface an index, in the order in
which they were last added, and answers which interface an address lies behind.

* `add` replaces an interface of the same index and puts the new one last;
* `resolve` takes the first interface whose address agrees with the one asked for on every bit of
  the mask asked with. The interfaces' own masks play no part, and a mask that is not contiguous
  resolves nothing.
-/

namespace LinkState

/-- One interface of a router. -/
structure Interface where
  index : UInt32
  address : Address
  mask : Address
deriving DecidableEq

/-- An address together with the length of a contiguous mask. -/
structure Subnet where
  address : Address
  mask : Address
  length : Nat

namespace Subnet

/-- The address with all bits outside the mask cleared. -/
def network (s : Subnet) : Address := s.address.combine s.mask

/-- The address as it was given, with the length of the mask behind it. -/
def text (s : Subnet) : String := s.address.text ++ "/" ++ toString s.length

end Subnet

/-- The subnet of an interface; there is none if its mask is not contiguous. -/
def Interface.subnet? (i : Interface) : Option Subnet :=
  i.mask.prefixLength?.map fun length => ⟨i.address, i.mask, length⟩

/-- Answers the interface that an address lies behind, under a mask. -/
abbrev Resolver := Address → Address → Option UInt32

/-- The interfaces of one router. -/
structure InterfaceTable where
  interfaces : List Interface
deriving DecidableEq

namespace InterfaceTable

def empty : InterfaceTable := ⟨[]⟩

/-- Adds an interface at the end, in place of any other with its index. -/
def add (t : InterfaceTable) (i : Interface) : InterfaceTable :=
  ⟨t.interfaces.filter (·.index != i.index) ++ [i]⟩

/-- The table of the interfaces, added in turn. -/
def ofList (is : List Interface) : InterfaceTable := is.foldl add empty

def get? (t : InterfaceTable) (index : UInt32) : Option Interface :=
  t.interfaces.find? (·.index == index)

/-- The first interface that agrees with the address on every bit of a contiguous mask. -/
def resolve (t : InterfaceTable) : Resolver := fun address mask =>
  if mask.prefixLength?.isSome then
    (t.interfaces.find? fun i => i.address.combine mask == address.combine mask).map (·.index)
  else
    none

/-- **An index occurs once**, whatever was added before. -/
theorem nodup_index_add {t : InterfaceTable} (h : (t.interfaces.map (·.index)).Nodup) (i : Interface) :
    ((t.add i).interfaces.map (·.index)).Nodup := by
  simp only [add, List.map_append, List.map_cons, List.map_nil]
  refine List.nodup_append.2 ⟨?_, by simp, ?_⟩
  · exact h.sublist (List.filter_sublist.map _)
  · intro a ha b hb
    simp only [List.mem_singleton] at hb
    obtain ⟨j, hj, rfl⟩ := List.mem_map.1 ha
    have := (List.mem_filter.1 hj).2
    subst hb
    simpa using this

/-- A mask that is not contiguous resolves nothing. -/
theorem resolve_eq_none_of_not_contiguous {t : InterfaceTable} {mask : Address}
    (h : mask.prefixLength? = none) (address : Address) : t.resolve address mask = none := by
  simp [resolve, h]

end InterfaceTable

end LinkState
