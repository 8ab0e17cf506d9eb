import LinkState.Configuration.Reading
import LinkState.Quoted.Basic
import LinkState.Report

/-!
# The command line

`routing [CONFIG] [--json]` reads a configuration, computes the routes of all its routers and
prints them. Of several paths the last one counts; without a path the file of the host is read.
-/

namespace LinkState

/-- What the arguments ask for. -/
structure Options where
  path : Option String := none
  json : Bool := false
deriving DecidableEq

namespace Options

/-- Takes one argument more. -/
def add (o : Options) (argument : String) : Except Error Options :=
  if argument = "--json" then .ok { o with json := true }
  else if argument.toList.head? = some '-' then .error (.configuration (.unknownOption argument))
  else .ok { o with path := some argument }

/-- The options of the arguments, taken in turn up to the first that is unknown. -/
def ofArguments (arguments : List String) : Except Error Options := arguments.foldlM add {}

end Options

/-- The path of the configuration of a host, named for the first label of its name. -/
def hostPath (hostname : String) : Except Error String :=
  let label := hostname.toList.takeWhile (· != '.')
  if label.isEmpty then .error (.configuration .invalidHostname)
  else .ok ("conf/config_" ++ String.ofList label ++ ".toml")

/-- What is printed for a configuration. -/
def Options.output (o : Options) (path : String) (source : Source) : Except Error String := do
  let c ← Configuration.ofSource path source
  let m ← c.toManager
  let (_, m) := m.recompute
  pure (if o.json then m.json ++ "\n" else m.table)

/-- The error as it is printed at the end of a run: its sort, and its text between quotes. -/
def Error.diagnostic : Error → String
  | configuration fault => "ConfigError(" ++ Quoted.text fault.text ++ ")"
  | io text => "IOError(" ++ Quoted.text text ++ ")"
  | serialization text => "SerializationError(" ++ Quoted.text text ++ ")"
  | routing fault => "RoutingError(" ++ Quoted.text fault.text ++ ")"
  | unknownRoot root => "UnknownRoot(" ++ root.text ++ ")"

end LinkState
