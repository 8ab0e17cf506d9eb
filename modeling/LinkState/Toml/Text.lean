import LinkState.Toml.Item
import LinkState.Toml.Reader

/-!
# Blanks, comments, strings and keys of TOML

* Blanks are spaces and tabs; a line ends with LF or CR LF, and a CR alone is nowhere allowed.
* Control characters other than the tab stand in no comment and in no string.
* A string over several lines drops the line break right behind its opening quotes and writes every
  other line break as LF. Up to two quotes may stand in front of its closing quotes.
* A key is bare or quoted; dots join keys into a path, with blanks around them.
-/

namespace LinkState.Toml

open Reader

/-! ## 1. Character classes -/

def isBlank (c : Char) : Bool := c == ' ' || c == '\t'

/-- A character that may stand in a comment: a tab or no ASCII control character. -/
def isPlain (c : Char) : Bool := c == '\t' || (' ' ≤ c && c ≤ '~') || '\x80' ≤ c

def isHexDigit (c : Char) : Bool :=
  ('0' ≤ c && c ≤ '9') || ('a' ≤ c && c ≤ 'f') || ('A' ≤ c && c ≤ 'F')

/-- A character of a bare key. -/
def isBareKey (c : Char) : Bool := c.isAlphanum || c == '_' || c == '-'

/-- The value of a hexadecimal digit. -/
def hexDigitValue (c : Char) : Nat :=
  if c ≤ '9' then c.toNat - '0'.toNat
  else if c ≤ 'F' then c.toNat - 'A'.toNat + 10
  else c.toNat - 'a'.toNat + 10

/-- The value of a run of digits to a base. -/
def digitsValue (base : Nat) (cs : List Char) : Nat :=
  cs.foldl (fun n c => base * n + hexDigitValue c) 0

/-! ## 2. Blanks, lines and comments -/

def blanks : Reader Unit := do let _ ← span isBlank

def lineBreak : Reader Unit := exactly '\n' <|> word "\r\n"

def comment : Reader Unit := do exactly '#'; let _ ← span isPlain

/-- What may stand behind a statement, up to the end of its line. -/
def lineEnd : Reader Unit := do blanks; let _ ← optional comment; lineBreak <|> ending

/-- Blanks, line breaks and comments. -/
def trivia : Reader Unit := do let _ ← many ((do let _ ← char isBlank) <|> lineBreak <|> comment)

/-! ## 3. Strings -/

/-- The character with the code written in exactly so many hexadecimal digits. Surrogates and codes
    past the last character are refused. -/
def scalar (digits : Nat) : Reader Char := do
  let cs ← (List.replicate digits ()).mapM fun _ => char isHexDigit
  let code := digitsValue 16 cs
  check (code < 0xD800 || (0xE000 ≤ code && code < 0x110000))
  pure (Char.ofNat code)

/-- The character that an escape stands for. -/
def escape : Reader Char := do
  exactly '\\'
  match ← char fun _ => true with
  | 'b' => pure '\x08'
  | 't' => pure '\t'
  | 'n' => pure '\n'
  | 'f' => pure '\x0c'
  | 'r' => pure '\r'
  | '"' => pure '"'
  | '\\' => pure '\\'
  | 'u' => scalar 4
  | 'U' => scalar 8
  | _ => failure

/-- A string in double quotes on one line. -/
def basicString : Reader String := do
  exactly '"'
  let cs ← many (escape <|> char fun c => isPlain c && c != '"' && c != '\\')
  exactly '"'
  pure (String.ofList cs)

/-- A string in single quotes on one line. -/
def literalString : Reader String := do
  exactly '\''
  let cs ← span fun c => isPlain c && c != '\''
  exactly '\''
  pure (String.ofList cs)

/-- A backslash at the end of a line: it takes away the blanks and line breaks that follow. -/
def foldedLine : Reader (List Char) := do
  exactly '\\'
  blanks
  lineBreak
  let _ ← many ((do let _ ← char isBlank) <|> lineBreak)
  pure []

/-- One or two quotes that close nothing. -/
def innerQuotes (quote : Char) : Reader (List Char) := do
  let qs ← span (· == quote)
  check (qs.length = 1 || qs.length = 2)
  pure qs

/-- The closing quotes of a string over several lines; what stands before the last three is text. -/
def closingQuotes (quote : Char) : Reader (List Char) := do
  let qs ← span (· == quote)
  check (3 ≤ qs.length && qs.length ≤ 5)
  pure (qs.drop 3)

/-- A string over several lines, in three of the given quotes; `piece` reads what is neither a
    quote nor a line break. -/
def multilineString (quote : Char) (piece : Reader (List Char)) : Reader String := do
  exactly quote
  exactly quote
  exactly quote
  let _ ← optional lineBreak
  let pieces ← many (piece <|> (do lineBreak; pure ['\n']) <|> innerQuotes quote)
  let last ← closingQuotes quote
  pure (String.ofList (pieces.flatten ++ last))

def multilineBasicString : Reader String :=
  multilineString '"' <|
    (do pure [← char fun c => isPlain c && c != '"' && c != '\\']) <|> foldedLine <|> (do pure [← escape])

def multilineLiteralString : Reader String :=
  multilineString '\'' do pure [← char fun c => isPlain c && c != '\'']

/-- Any string. -/
def string : Reader String :=
  multilineBasicString <|> basicString <|> multilineLiteralString <|> literalString

/-! ## 4. Keys -/

def bareKey : Reader String := do
  let cs ← span isBareKey
  check (!cs.isEmpty)
  pure (String.ofList cs)

def simpleKey : Reader String := basicString <|> literalString <|> bareKey

/-- How deep arrays and inline tables may be nested, and how many steps a key may have. -/
def nestingLimit : Nat := 79

/-- A key, with dots between its steps and blanks around them. -/
def key : Reader Key := do
  let step : Reader String := do blanks; let k ← simpleKey; blanks; pure k
  let first ← step
  let others ← many (do exactly '.'; step)
  check (others.length < nestingLimit)
  let steps := first :: others
  pure ⟨steps.dropLast, steps.getLastD first⟩

end LinkState.Toml
