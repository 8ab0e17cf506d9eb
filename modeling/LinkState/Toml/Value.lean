import LinkState.Toml.Number

/-!
# Values of TOML

A value is a scalar, an array between brackets or a table between braces. Arrays may hold line
breaks and comments and may end with a comma; tables between braces hold neither and do not.

The reader of nested values recurses on the number of levels that are left, so its nesting has a
limit and it needs no other measure.
-/

namespace LinkState.Toml

open Reader

def boolean : Reader Bool := (do word "true"; pure true) <|> (do word "false"; pure false)

/-- A value that holds no other values. A date-time is tried before the numbers that it may begin
    with, and a float before an integer. -/
def scalarValue : Reader Item :=
  (Item.string <$> string) <|> (Item.boolean <$> boolean) <|> (Item.dateTime <$> dateTime) <|>
    (Item.float <$> float) <|> (Item.integer <$> integer)

/-- An array between brackets. -/
def array (element : Reader Item) : Reader Item := do
  exactly '['
  let items ← separated (exactly ',') (do trivia; let i ← element; trivia; pure i)
  if !items.isEmpty then
    let _ ← optional (exactly ',')
  trivia
  exactly ']'
  pure (.array items)

/-- A key and its value. -/
def pair (value : Reader Item) : Reader (Key × Item) := do
  let k ← key
  exactly '='
  blanks
  pure (k, ← value)

/-- A table between braces. -/
def inlineTable (value : Reader Item) : Reader Item := do
  exactly '\x7b'
  blanks
  let pairs ← separated (exactly ',') (do let p ← pair value; blanks; pure p)
  blanks
  exactly '\x7d'
  match inlineTable? pairs with
  | some table => pure table
  | none => failure

/-- A value with at most `levels` levels of arrays and inline tables. -/
def value : (levels : Nat) → Reader Item
  | 0 => scalarValue
  | levels + 1 => scalarValue <|> array (value levels) <|> inlineTable (value levels)

end LinkState.Toml
