import LinkState.Quoted.Shapeless

/-!
# Quoted texts

A text between double quotes in which every character can be seen. Quotes and backslashes get a
backslash, the usual controls their letters, and every other character without a shape of its own
its code in hexadecimal digits between braces.
-/

namespace LinkState.Quoted

/-- A character between quotes. -/
def escape (c : Char) : String :=
  if c = '\x00' then "\\0"
  else if c = '\t' then "\\t"
  else if c = '\n' then "\\n"
  else if c = '\r' then "\\r"
  else if c = '"' then "\\\""
  else if c = '\\' then "\\\\"
  else if isShapeless c.toNat then
    "\\u\x7b" ++ String.ofList (Nat.toDigits 16 c.toNat) ++ "\x7d"
  else
    c.toString

/-- The text between quotes. -/
def text (s : String) : String := "\"" ++ String.join (s.toList.map escape) ++ "\""

end LinkState.Quoted
