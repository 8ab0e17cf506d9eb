import Mathlib.Data.List.Forall2
import LinkState.Configuration.Basic
import LinkState.Proofs.Interfaces
import LinkState.Proofs.Recomputation

/-!
# From a configuration to a manager

A configuration is converted as a whole or not at all. It is complete if every advertisement has the
fields that its sort needs (`AdvertisementKind.required`); then each entry becomes the router that it
describes (`RouterEntry.Describes`). Otherwise the error names the first field that is missing: of the
first router that lacks one, the first such advertisement, and of that the first such field.

* `traverses_mapM`: a traversal that may fail stops at the first element that does;
* `AdvertisementEntry.converts_toAdvertisement`, `RouterEntry.converts_toRouter`: so an entry that is
  complete gives what it describes, and any other names its first missing field;
* `Configuration.converts_toManager`: and so does the whole configuration.
-/

namespace LinkState

/-! ## 1. Traversals that may fail -/

section Traversal

variable {α β ε : Type} {well : α → Prop} {Gives : α → β → Prop} {f : α → Except ε β}

/-- Everything in front of the element is well, and the element is not. -/
def StopsAt (well : α → Prop) (xs : List α) (x : α) : Prop :=
  ∃ front back, xs = front ++ x :: back ∧ (∀ a ∈ front, well a) ∧ ¬ well x

theorem StopsAt.mem {xs : List α} {x : α} (h : StopsAt well xs x) : x ∈ xs := by
  obtain ⟨front, back, rfl, _⟩ := h
  exact List.mem_append_right _ List.mem_cons_self

theorem StopsAt.not_all {xs : List α} {x : α} (h : StopsAt well xs x) : ¬ ∀ a ∈ xs, well a :=
  have ⟨_, _, _, _, hnot⟩ := h
  fun hall => hnot (hall x h.mem)

/-- **How a traversal ends**: with what every element gives, or with the error of the first element that
    is not well. -/
inductive Traverses (well : α → Prop) (Gives : α → β → Prop) (f : α → Except ε β) (xs : List α) :
    Except ε (List β) → Prop
  | all {ys : List β} (hwell : ∀ x ∈ xs, well x) (hys : List.Forall₂ Gives xs ys) :
    Traverses well Gives f xs (.ok ys)
  | stops {x : α} {e : ε} (hx : StopsAt well xs x) (he : f x = .error e) : Traverses well Gives f xs (.error e)

theorem traverses_mapM (hok : ∀ {x y}, f x = .ok y → well x ∧ Gives x y)
    (herror : ∀ {x e}, f x = .error e → ¬ well x) : ∀ xs, Traverses well Gives f xs (xs.mapM f)
  | [] => .all (fun _ hx => absurd hx List.not_mem_nil) .nil
  | x :: xs => by
    rw [List.mapM_cons]
    cases hx : f x with
    | error e => exact .stops ⟨[], xs, rfl, fun _ ha => absurd ha List.not_mem_nil, herror hx⟩ hx
    | ok y =>
      obtain ⟨hwell, hgives⟩ := hok hx
      have ih := traverses_mapM hok herror xs
      show Traverses well Gives f (x :: xs) (xs.mapM f >>= fun ys => .ok (y :: ys))
      generalize xs.mapM f = rest at ih
      cases ih with
      | all hall hys => exact .all (List.forall_mem_cons.2 ⟨hwell, hall⟩) (.cons hgives hys)
      | @stops a e ha he =>
        obtain ⟨front, back, rfl, hfront, hnot⟩ := ha
        exact .stops ⟨x :: front, back, rfl, List.forall_mem_cons.2 ⟨hwell, hfront⟩, hnot⟩ he

end Traversal

/-! ## 2. Advertisements -/

/-- The fields that a sort of advertisement needs, in the order in which they are asked for. -/
def AdvertisementKind.required : AdvertisementKind → List RequiredField
  | router => []
  | network => [.networkMask]
  | asExternal => [.networkMask, .advertisingRouter]

namespace AdvertisementEntry

/-- What the entry has in a field. -/
def value? (a : AdvertisementEntry) : RequiredField → Option Address
  | .networkMask => a.mask
  | .advertisingRouter => a.advertisingRouter

/-- The entry has every field that its sort needs. -/
def Complete (a : AdvertisementEntry) : Prop := ∀ field ∈ a.kind.required, (a.value? field).isSome

/-- The field is the first of those needed that the entry does not have. -/
def Lacks (a : AdvertisementEntry) (field : RequiredField) : Prop :=
  StopsAt (fun field => (a.value? field).isSome) a.kind.required field

/-- **The advertisement that an entry describes** has the fields of its sort, and is unexplored. The
    entry may have any other fields besides. -/
inductive Describes (a : AdvertisementEntry) : Advertisement → Prop
  | router (hk : a.kind = .router) : Describes a (.node ⟨a.id, .router a.links, .notExplored⟩)
  | network {mask : Address} (hk : a.kind = .network) (hmask : a.mask = some mask) :
    Describes a (.node ⟨a.id, .network mask a.attached, .notExplored⟩)
  | external {mask advertisingRouter : Address} (hk : a.kind = .asExternal) (hmask : a.mask = some mask)
      (hrouter : a.advertisingRouter = some advertisingRouter) :
    Describes a (.external ⟨a.id, mask, advertisingRouter, .notExplored⟩)

/-- What comes of an entry. -/
inductive Converts (a : AdvertisementEntry) : Except Error Advertisement → Prop
  | whole {ad : Advertisement} (hcomplete : a.Complete) (had : a.Describes ad) : Converts a (.ok ad)
  | missing {field : RequiredField} (hlacks : a.Lacks field) :
    Converts a (.error (.configuration (.missingField a.kind a.id field)))

variable {a : AdvertisementEntry}

/-- **One entry**: its sort says which fields are asked for, one after the other. -/
theorem converts_toAdvertisement (a : AdvertisementEntry) : a.Converts a.toAdvertisement := by
  obtain ⟨id, kind, links, mask, attached, advertisingRouter⟩ := a
  cases kind with
  | router => exact .whole (fun _ hf => absurd hf List.not_mem_nil) (.router rfl)
  | network =>
    cases mask with
    | none => exact .missing ⟨[], [], rfl, fun _ hf => absurd hf List.not_mem_nil, nofun⟩
    | some mask => exact .whole (List.forall_mem_singleton.2 rfl) (.network rfl rfl)
  | asExternal =>
    cases mask with
    | none => exact .missing ⟨[], [.advertisingRouter], rfl, fun _ hf => absurd hf List.not_mem_nil, nofun⟩
    | some mask =>
      cases advertisingRouter with
      | none => exact .missing ⟨[.networkMask], [], rfl, List.forall_mem_singleton.2 rfl, nofun⟩
      | some advertisingRouter =>
        exact .whole (List.forall_mem_cons.2 ⟨rfl, List.forall_mem_singleton.2 rfl⟩) (.external rfl rfl rfl)

theorem complete_iff : a.Complete ↔
    (a.kind = .network → a.mask.isSome) ∧
      (a.kind = .asExternal → a.mask.isSome ∧ a.advertisingRouter.isSome) := by
  obtain ⟨id, kind, links, mask, attached, advertisingRouter⟩ := a
  cases kind <;> simp [Complete, AdvertisementKind.required, value?]

theorem describes_of_eq_ok {ad : Advertisement} (h : a.toAdvertisement = .ok ad) : a.Complete ∧ a.Describes ad := by
  have hc := a.converts_toAdvertisement
  rw [h] at hc
  cases hc with
  | whole hcomplete had => exact ⟨hcomplete, had⟩

theorem lacks_of_eq_error {e : Error} (h : a.toAdvertisement = .error e) :
    ∃ field, a.Lacks field ∧ e = .configuration (.missingField a.kind a.id field) := by
  have hc := a.converts_toAdvertisement
  rw [h] at hc
  cases hc with
  | missing hlacks => exact ⟨_, hlacks, rfl⟩

theorem not_complete_of_eq_error {e : Error} (h : a.toAdvertisement = .error e) : ¬ a.Complete :=
  let ⟨_, hlacks, _⟩ := lacks_of_eq_error h
  hlacks.not_all

end AdvertisementEntry

/-! ## 3. Routers -/

namespace RouterEntry

/-- Every advertisement of the entry is complete. -/
def Complete (r : RouterEntry) : Prop := ∀ a ∈ r.advertisements, a.Complete

/-- **The router that an entry describes** has no routes yet, of the interfaces of each index the last
    one, and the advertisements in the order of the entry. -/
structure Describes (r : RouterEntry) (router : Router) : Prop where
  id : router.id = r.id
  table : router.table = .empty
  interfaces : router.interfaces.KeepsLast r.interfaces
  advertisements : List.Forall₂ AdvertisementEntry.Describes r.advertisements router.advertisements

/-- The field is the first that the advertisements of the entry miss, and it is one of this
    advertisement. -/
def Lacks (r : RouterEntry) (a : AdvertisementEntry) (field : RequiredField) : Prop :=
  StopsAt AdvertisementEntry.Complete r.advertisements a ∧ a.Lacks field

/-- What comes of an entry. -/
inductive Converts (r : RouterEntry) : Except Error Router → Prop
  | whole {router : Router} (hcomplete : r.Complete) (hrouter : r.Describes router) : Converts r (.ok router)
  | missing {a : AdvertisementEntry} {field : RequiredField} (hlacks : r.Lacks a field) :
    Converts r (.error (.configuration (.missingField a.kind a.id field)))

variable {r : RouterEntry}

/-- **One router**: its advertisements are taken in order up to the first that is not complete. -/
theorem converts_toRouter (r : RouterEntry) : r.Converts r.toRouter := by
  have hads := traverses_mapM (f := (·.toAdvertisement)) AdvertisementEntry.describes_of_eq_ok
    AdvertisementEntry.not_complete_of_eq_error r.advertisements
  show r.Converts (r.advertisements.mapM (·.toAdvertisement) >>= fun advertisements =>
    .ok { id := r.id, interfaces := .ofList r.interfaces, advertisements })
  generalize r.advertisements.mapM (·.toAdvertisement) = converted at hads
  cases hads with
  | all hcomplete hads => exact .whole hcomplete ⟨rfl, rfl, InterfaceTable.keepsLast_ofList _, hads⟩
  | stops ha he =>
    obtain ⟨field, hlacks, rfl⟩ := AdvertisementEntry.lacks_of_eq_error he
    exact .missing ⟨ha, hlacks⟩

theorem describes_of_eq_ok {router : Router} (h : r.toRouter = .ok router) : r.Complete ∧ r.Describes router := by
  have hc := r.converts_toRouter
  rw [h] at hc
  cases hc with
  | whole hcomplete hrouter => exact ⟨hcomplete, hrouter⟩

theorem lacks_of_eq_error {e : Error} (h : r.toRouter = .error e) :
    ∃ a field, r.Lacks a field ∧ e = .configuration (.missingField a.kind a.id field) := by
  have hc := r.converts_toRouter
  rw [h] at hc
  cases hc with
  | missing hlacks => exact ⟨_, _, hlacks, rfl⟩

theorem not_complete_of_eq_error {e : Error} (h : r.toRouter = .error e) : ¬ r.Complete :=
  let ⟨_, _, ⟨ha, _⟩, _⟩ := lacks_of_eq_error h
  ha.not_all

end RouterEntry

/-! ## 4. Configurations -/

namespace Configuration

/-- Every network of the configuration has a mask, and every external a mask and a router that
    announces it. -/
def Complete (c : Configuration) : Prop := ∀ r ∈ c.routers, r.Complete

/-- **The manager that a configuration describes** has the routers in the order of the configuration,
    and nothing else yet. -/
structure Describes (c : Configuration) (m : Manager) : Prop where
  routers : List.Forall₂ RouterEntry.Describes c.routers m.routers
  database : m.database = .empty
  roots : m.roots = []

/-- **What comes of a configuration.** -/
inductive Converts (c : Configuration) : Except Error Manager → Prop
  | whole {m : Manager} (hcomplete : c.Complete) (hm : c.Describes m) : Converts c (.ok m)
  | missing {r : RouterEntry} {a : AdvertisementEntry} {field : RequiredField}
      (hr : StopsAt RouterEntry.Complete c.routers r) (hlacks : r.Lacks a field) :
    Converts c (.error (.configuration (.missingField a.kind a.id field)))

theorem converts_toManager (c : Configuration) : c.Converts c.toManager := by
  have hrouters := traverses_mapM (f := (·.toRouter)) RouterEntry.describes_of_eq_ok
    RouterEntry.not_complete_of_eq_error c.routers
  show c.Converts (c.routers.mapM (·.toRouter) >>= fun routers => .ok (.ofList routers))
  generalize c.routers.mapM (·.toRouter) = converted at hrouters
  cases hrouters with
  | @all rs hcomplete hrs =>
    refine .whole hcomplete ?_
    rw [Manager.ofList_eq]
    exact ⟨hrs, rfl, rfl⟩
  | stops hr he =>
    obtain ⟨a, field, hlacks, rfl⟩ := RouterEntry.lacks_of_eq_error he
    exact .missing hr hlacks

/-- **A configuration is converted as a whole or not at all**: into the manager that it describes if
    every advertisement has the fields that its sort needs, and else into an error that names the sort,
    the identifier and the field where the first one is missing. -/
theorem toManager_wholeOrMissing (c : Configuration) :
    c.Converts c.toManager ∧
      ((∃ m, c.toManager = .ok m) ↔ ∀ r ∈ c.routers, ∀ a ∈ r.advertisements,
        (a.kind = .network → a.mask.isSome) ∧
          (a.kind = .asExternal → a.mask.isSome ∧ a.advertisingRouter.isSome)) ∧
      ∀ kind id field, (Error.configuration (.missingField kind id field)).message =
        "Configuration error: " ++ (kind.name ++ " advertisement " ++ id.text ++ " has no " ++ field.name) := by
  have hc := c.converts_toManager
  refine ⟨hc, ?_, fun _ _ _ => rfl⟩
  simp only [← AdvertisementEntry.complete_iff]
  generalize c.toManager = converted at hc
  cases hc with
  | whole hcomplete _ => exact iff_of_true ⟨_, rfl⟩ hcomplete
  | missing hr _ => exact iff_of_false nofun hr.not_all

/-- The first router and the first advertisement of the second are complete, the second advertisement
    lacks its mask, and the third lacks everything. -/
example :
    Configuration.toManager
      { logLevel := "info"
        routers :=
          [⟨.ofOctets 10 0 0 1, [], [⟨.ofOctets 10 0 0 1, .router, [], none, [], none⟩]⟩,
            ⟨.ofOctets 10 0 0 2, [], [⟨.ofOctets 10 9 0 1, .network, [], some (.ofOctets 255 255 255 0), [], none⟩,
              ⟨.ofOctets 192 168 0 0, .asExternal, [], none, [], some (.ofOctets 10 0 0 2)⟩,
              ⟨.ofOctets 172 16 0 0, .asExternal, [], none, [], none⟩]⟩] } =
      .error (.configuration (.missingField .asExternal (.ofOctets 192 168 0 0) .networkMask)) :=
  rfl

end Configuration

end LinkState
