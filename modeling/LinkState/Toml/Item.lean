/-!
# TOML items and tables

An `Item` is a value of a TOML document. Tables remember how they came about, because that decides
who may add to them later (`TableForm`):

* a table written between braces is closed where it ends;
* a table that a `[header]` opened takes its keys below the header and from no dotted key elsewhere;
* a table that only is a step of a header's path may be opened by a header of its own, once;
* a table that is a step of a dotted key takes further dotted keys and no header.

`descend` goes down a path and changes the table at its end. All four ways in which a document adds
to its tables are such a change: `define?`, `openTable?`, `openElement?`, and `define?` in the table
that the last header opened.
-/

namespace LinkState.Toml

/-- How a table came about. -/
inductive TableForm where
  /-- It was written between braces. -/
  | inline
  /-- A header opened it. -/
  | header
  /-- It is a step of a header's path. -/
  | implicit
  /-- It is a step of a dotted key. -/
  | dotted
deriving DecidableEq

/-- A value of a document. Floats and date-times are kept as they are written. -/
inductive Item where
  | string (s : String)
  | integer (i : Int)
  | float (text : String)
  | boolean (b : Bool)
  | dateTime (text : String)
  /-- An array written between brackets. -/
  | array (items : List Item)
  /-- An array of tables, one for each double-bracket header. -/
  | tableArray (elements : List (List (String × Item)))
  | table (form : TableForm) (entries : List (String × Item))

/-- A key with dots: the steps of its path and the name at its end. -/
structure Key where
  path : List String
  name : String

/-- The keys of a table with their items, in the order in which they were first written. -/
abbrev Entries := List (String × Item)

/-- Puts an item in the place of the one under a key, or at the end. -/
def Entries.put (key : String) (item : Item) : Entries → Entries
  | [] => [(key, item)]
  | (k, i) :: es => if k = key then (key, item) :: es else (k, i) :: Entries.put key item es

/-- Whether a path may enter a table. No path enters a table between braces, and a dotted key
    enters no table that a header opened. -/
def TableForm.admits (made form : TableForm) : Bool :=
  form != .inline && !(made == .dotted && form == .header)

/-- Goes down a path from a table and changes the table at its end. Steps that are missing become
    tables of the form `made`; in an array of tables the path goes on in the last element. -/
def descend (made : TableForm) (change : TableForm → Entries → Option Entries) :
    List String → TableForm → Entries → Option Entries
  | [], form, es => change form es
  | key :: path, _, es =>
    match es.lookup key with
    | none => (descend made change path made []).map fun sub => es.put key (.table made sub)
    | some (.table form sub) =>
      if made.admits form then
        (descend made change path form sub).map fun sub' => es.put key (.table form sub')
      else
        none
    | some (.tableArray elements) =>
      match elements.getLast? with
      | some last =>
        (descend made change path .header last).map fun last' =>
          es.put key (.tableArray (elements.dropLast ++ [last']))
      | none => none
    | some _ => none

/-- Adds a key to the table at the end of a dotted path. The key must be new, and a table that came
    about as a step of a dotted key takes new keys only from a path. -/
def define? (key : Key) (item : Item) (form : TableForm) (es : Entries) : Option Entries :=
  descend .dotted (fun form es =>
    if (form == .dotted) == key.path.isEmpty || (es.lookup key.name).isSome then none
    else some (es ++ [(key.name, item)])) key.path form es

/-- Opens the table of a header. It is new, or so far only a step of other headers' paths. -/
def openTable? (key : Key) (es : Entries) : Option Entries :=
  descend .implicit (fun _ es =>
    match es.lookup key.name with
    | none => some (es ++ [(key.name, .table .header [])])
    | some (.table .implicit sub) => some (es.put key.name (.table .header sub))
    | some _ => none) key.path .header es

/-- Opens a further element of an array of tables. -/
def openElement? (key : Key) (es : Entries) : Option Entries :=
  descend .implicit (fun _ es =>
    match es.lookup key.name with
    | none => some (es ++ [(key.name, .tableArray [[]])])
    | some (.tableArray elements) => some (es.put key.name (.tableArray (elements ++ [[]])))
    | some _ => none) key.path .header es

/-- The table of pairs written between braces; the keys may be dotted. -/
def inlineTable? (pairs : List (Key × Item)) : Option Item :=
  (pairs.foldlM (fun es (pair : Key × Item) => define? pair.1 pair.2 .inline es) []).map (.table .inline)

end LinkState.Toml
