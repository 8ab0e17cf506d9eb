import LinkState.Configuration.Basic
import LinkState.Toml.Document

/-!
# Reading configurations

A configuration is a TOML document. Keys that it does not know are ignored.

A record is written as a table of its fields, or as an array of them in order. In a table a field
with a default may be absent, and so may one that is optional; in an array only fields with a
default may be absent, and only at the end. Elements of an array past the last field are ignored.

A word out of a fixed choice is a string, or a table with that one key and nothing under it.
-/

namespace LinkState

namespace Configuration

open Toml (Item Entries)

/-! ## 1. Single values -/

def string? : Item → Option String
  | .string s => some s
  | _ => none

def address? (i : Item) : Option Address := (string? i).bind Address.ofText?

def word? : Item → Option UInt32
  | .integer n => if 0 ≤ n ∧ n < UInt32.size then some (UInt32.ofNat n.toNat) else none
  | _ => none

/-- The items of an array, whichever way it is written. -/
def items? : Item → Option (List Item)
  | .array items => some items
  | .tableArray elements => some (elements.map (.table .header))
  | _ => none

def list? (element : Item → Option α) (i : Item) : Option (List α) := do (← items? i).mapM element

/-- Whether an item is a table or an array with nothing in it. -/
def isBare : Item → Bool
  | .table _ entries => entries.isEmpty
  | .array items => items.isEmpty
  | .tableArray elements => elements.isEmpty
  | _ => false

/-- A word out of a choice. -/
def choice? (words : List (String × α)) : Item → Option α
  | .string s => words.lookup s
  | .table _ [(s, i)] => if isBare i then words.lookup s else none
  | _ => none

/-! ## 2. Records -/

/-- The fields of a record by name, and whether it was written as an array. -/
structure Fields where
  positional : Bool
  values : Entries

/-- The fields of a record with the given names. -/
def fields? (names : List String) : Item → Option Fields
  | .table _ entries => some ⟨false, entries⟩
  | .array items => some ⟨true, names.zip items⟩
  | _ => none

namespace Fields

/-- A field that must be there. -/
def required (f : Fields) (name : String) (read : Item → Option α) : Option α :=
  (f.values.lookup name).bind read

/-- A field that has a value also if it is not there. -/
def defaulted (f : Fields) (name : String) (default : α) (read : Item → Option α) : Option α :=
  match f.values.lookup name with
  | some i => read i
  | none => some default

/-- A field that may be left out of a table. -/
def optional (f : Fields) (name : String) (read : Item → Option α) : Option (Option α) :=
  match f.values.lookup name with
  | some i => (read i).map some
  | none => if f.positional then none else some none

end Fields

/-! ## 3. The records of a configuration -/

def linkType? : Item → Option LinkType :=
  choice? [("point-to-point", .pointToPoint), ("transit-network", .transitNetwork),
    ("stub-network", .stubNetwork)]

def link? (i : Item) : Option Link := do
  let f ← fields? ["link_type", "link_id", "link_data", "metric"] i
  pure
    { type := ← f.required "link_type" linkType?
      id := ← f.required "link_id" address?
      data := ← f.required "link_data" address?
      metric := ← f.required "metric" word? }

def interface? (i : Item) : Option Interface := do
  let f ← fields? ["index", "address", "mask"] i
  pure
    { index := ← f.required "index" word?
      address := ← f.required "address" address?
      mask := ← f.required "mask" address? }

def kind? : Item → Option AdvertisementKind :=
  choice? ([AdvertisementKind.router, .network, .asExternal].map fun k => (k.name, k))

def advertisement? (i : Item) : Option AdvertisementEntry := do
  let f ← fields? ["link_state_id", "kind", "links", "network_mask", "attached_routers", "advertising_router"] i
  pure
    { id := ← f.required "link_state_id" address?
      kind := ← f.required "kind" kind?
      links := ← f.defaulted "links" [] (list? link?)
      mask := ← f.optional RequiredField.networkMask.name address?
      attached := ← f.defaulted "attached_routers" [] (list? address?)
      advertisingRouter := ← f.optional RequiredField.advertisingRouter.name address? }

def router? (i : Item) : Option RouterEntry := do
  let f ← fields? ["router_id", "interfaces", "advertisements"] i
  pure
    { id := ← f.required "router_id" address?
      interfaces := ← f.defaulted "interfaces" [] (list? interface?)
      advertisements := ← f.defaulted "advertisements" [] (list? advertisement?) }

/-- The configuration in the table of a document. -/
def ofEntries? (entries : Entries) : Option Configuration := do
  let f : Fields := ⟨false, entries⟩
  pure
    { logLevel := ← f.defaulted "log_level" "info" string?
      routers := ← f.defaulted "routers" [] (list? router?) }

/-! ## 4. Texts and files -/

/-- Reads a configuration from its text. -/
def ofText (text : String) : Except Error Configuration :=
  match (Toml.parse? text).bind ofEntries? with
  | some c => .ok c
  | none => .error (.configuration .unreadableTopology)

end Configuration

/-- What stands under a path. -/
inductive Source where
  | missing
  /-- Something stands there, but it cannot be read. -/
  | unreadable (cause : String)
  | text (content : String)
deriving DecidableEq

/-- Reads the configuration that stands under a path. -/
def Configuration.ofSource (path : String) : Source → Except Error Configuration
  | .missing => .error (.configuration (.fileNotFound path))
  | .unreadable cause => .error (.io cause)
  | .text content => ofText content

end LinkState
