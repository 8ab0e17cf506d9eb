import LinkState.Advertisement

/-!
# Errors

Everything that can go wrong, by cause. `message` is the line shown to a user and `source` the
text of the error that lies behind, where there is one.
-/

namespace LinkState

/-- A field that only some sorts of advertisement need. -/
inductive RequiredField where
  | networkMask
  | advertisingRouter
deriving DecidableEq

/-- The name of the field, as configurations write it. -/
def RequiredField.name : RequiredField → String
  | networkMask => "network_mask"
  | advertisingRouter => "advertising_router"

/-- What is wrong with a configuration or a command line. -/
inductive ConfigurationFault where
  | fileNotFound (path : String)
  /-- The text is no document, or the document is no configuration. -/
  | unreadableTopology
  | missingField (kind : AdvertisementKind) (id : Address) (field : RequiredField)
  | unknownOption (option : String)
  | invalidHostname
  | other (text : String)
deriving DecidableEq

def ConfigurationFault.text : ConfigurationFault → String
  | fileNotFound path => "Config file not found: " ++ path
  | unreadableTopology => "Failed to parse topology"
  | missingField kind id field =>
    kind.name ++ " advertisement " ++ id.text ++ " has no " ++ field.name
  | unknownOption option => "unknown option " ++ option ++ " (usage: routing [CONFIG] [--json])"
  | invalidHostname => "Invalid hostname"
  | other text => text

/-- Why routes cannot be computed. -/
inductive RoutingFault where
  /-- The root is stored, but it is a network. -/
  | rootIsNoRouter (root : Address)
  /-- No router has the identifier. -/
  | noSuchRouter (id : Address)
  /-- A handle of a tree leads outside its arena. -/
  | danglingHandle
  | other (text : String)
deriving DecidableEq

def RoutingFault.text : RoutingFault → String
  | rootIsNoRouter root => "root " ++ root.text ++ " is not a router advertisement"
  | noSuchRouter id => "no router with id " ++ id.text
  | danglingHandle => "a handle leads outside the tree"
  | other text => text

inductive Error where
  | configuration (fault : ConfigurationFault)
  | io (text : String)
  | serialization (text : String)
  | routing (fault : RoutingFault)
  /-- The root has no advertisement in the database. -/
  | unknownRoot (root : Address)
deriving DecidableEq

namespace Error

/-- The line shown to a user. -/
def message : Error → String
  | configuration fault => "Configuration error: " ++ fault.text
  | io text => "IO error: " ++ text
  | serialization text => "Serialization error: " ++ text
  | routing fault => "Routing error: " ++ fault.text
  | unknownRoot root => "No advertisement for root router " ++ root.text

/-- The text of the error behind this one. -/
def source : Error → Option String
  | io text => some text
  | serialization text => some text
  | _ => none

end Error

end LinkState
