import LinkState.Toml.Value

/-!
# TOML documents

A document is a sequence of statements: keys with values, headers of tables, and headers of
elements of arrays of tables. `statements` reads them and `Document.ofStatements?` carries them out
on an empty table, where a statement fails that defines something twice.
-/

namespace LinkState.Toml

open Reader

/-! ## 1. Statements -/

inductive Statement where
  | pair (key : Key) (value : Item)
  | header (key : Key)
  | elementHeader (key : Key)

/-- A key with its value, or a header. -/
def statement : Reader Statement :=
  (do word "[["; let k ← key; word "]]"; pure (.elementHeader k)) <|>
    (do exactly '['; let k ← key; exactly ']'; pure (.header k)) <|>
    (do let (k, v) ← pair (value nestingLimit); pure (.pair k v))

/-- A line: a statement or none, and perhaps a comment. -/
def line : Reader (Option Statement) :=
  (do let s ← statement; lineEnd; pure (some s)) <|> (do lineEnd; pure none)

/-- The statements of a text, which may begin with a byte order mark. -/
def statements : Reader (List Statement) := do
  let _ ← optional (exactly '\ufeff')
  let lines ← many (do blanks; line)
  blanks
  ending
  pure (lines.filterMap id)

/-! ## 2. Carrying out statements -/

/-- A document in the making: its table, and the key of the last header. -/
structure Document where
  entries : Entries
  current : List String

namespace Document

def empty : Document := ⟨[], []⟩

/-- Carries out a statement, unless it defines something twice. -/
def extend? (d : Document) : Statement → Option Document
  | .pair k v =>
    (descend .implicit (fun form es => define? k v form es) d.current .header d.entries).map
      fun entries => { d with entries }
  | .header k => (openTable? k d.entries).map fun entries => ⟨entries, k.path ++ [k.name]⟩
  | .elementHeader k => (openElement? k d.entries).map fun entries => ⟨entries, k.path ++ [k.name]⟩

def ofStatements? (ss : List Statement) : Option Document := ss.foldlM extend? empty

end Document

/-- The table of a document; `none` if the text is no document. -/
def parse? (text : String) : Option Entries := do
  let (ss, _) ← statements text.toList
  let d ← Document.ofStatements? ss
  pure d.entries

end LinkState.Toml
