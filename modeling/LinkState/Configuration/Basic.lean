import LinkState.Manager

/-!
# Configurations

A configuration describes the routers of a domain: their interfaces and what they advertise. An
entry for an advertisement has a field for everything that any sort of advertisement needs, so a
sort may lack one of its fields; turning entries into advertisements finds that out.

`Configuration.toManager` takes the routers in order and the advertisements of each in order, and
stops at the first that lacks a field. A network needs a mask, an external needs a mask and the
router that announces it, in this order; fields that a sort does not use are ignored.
-/

namespace LinkState

/-- An advertisement as a configuration writes it. -/
structure AdvertisementEntry where
  id : Address
  kind : AdvertisementKind
  links : List Link
  mask : Option Address
  attached : List Address
  advertisingRouter : Option Address
deriving DecidableEq

/-- A router as a configuration writes it. -/
structure RouterEntry where
  id : Address
  interfaces : List Interface
  advertisements : List AdvertisementEntry
deriving DecidableEq

structure Configuration where
  logLevel : String
  routers : List RouterEntry
deriving DecidableEq

namespace AdvertisementEntry

/-- The value of a field that the entry needs. -/
def need (a : AdvertisementEntry) (field : RequiredField) (value : Option Address) : Except Error Address :=
  match value with
  | some v => .ok v
  | none => .error (.configuration (.missingField a.kind a.id field))

/-- The advertisement of an entry, not explored yet. -/
def toAdvertisement (a : AdvertisementEntry) : Except Error Advertisement :=
  match a.kind with
  | .router => .ok (.node { id := a.id, kind := .router a.links })
  | .network => do
    let mask ← a.need .networkMask a.mask
    pure (.node { id := a.id, kind := .network mask a.attached })
  | .asExternal => do
    let mask ← a.need .networkMask a.mask
    let advertisingRouter ← a.need .advertisingRouter a.advertisingRouter
    pure (.external { id := a.id, mask, advertisingRouter })

end AdvertisementEntry

/-- The router of an entry, without routes. -/
def RouterEntry.toRouter (r : RouterEntry) : Except Error Router := do
  let advertisements ← r.advertisements.mapM (·.toAdvertisement)
  pure { id := r.id, interfaces := .ofList r.interfaces, advertisements }

/-- The manager of all routers, with an empty database. -/
def Configuration.toManager (c : Configuration) : Except Error Manager := do
  let routers ← c.routers.mapM (·.toRouter)
  pure (.ofList routers)

end LinkState
