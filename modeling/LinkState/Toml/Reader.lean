/-!
# Readers

A reader takes an item off the front of a list of characters, or fails. Choice tries the second
reader where the first began, so a failing reader takes nothing.

`many` repeats a reader for as long as it takes something. That is what makes it total: a round
that leaves the text as long as it was ends the repetition.
-/

namespace LinkState.Toml

/-- Takes an item off the front of a text. -/
abbrev Reader := StateT (List Char) Option

namespace Reader

variable {α β : Type}

/-- One character of a class. -/
def char (p : Char → Bool) : Reader Char := fun s =>
  match s with
  | c :: rest => if p c then some (c, rest) else none
  | [] => none

/-- This character. -/
def exactly (c : Char) : Reader Unit := do let _ ← char (· == c)

/-- These characters in order. -/
def word (s : String) : Reader Unit := s.toList.forM exactly

/-- The longest run of characters of a class, possibly none. -/
def span (p : Char → Bool) : Reader (List Char) := fun s => some (s.takeWhile p, s.dropWhile p)

/-- Succeeds at the end of the text. -/
def ending : Reader Unit := fun s => if s.isEmpty then some ((), s) else none

/-- Succeeds without taking anything if the condition holds. -/
def check (p : Bool) : Reader Unit := if p then pure () else failure

/-- Repeats a reader for as long as it succeeds and takes something. -/
def manyFrom (p : Reader α) (s : List Char) : List α × List Char :=
  match p s with
  | some (a, rest) =>
    if rest.length < s.length then
      let (as, rest') := manyFrom p rest
      (a :: as, rest')
    else
      ([], s)
  | none => ([], s)
termination_by s.length

def many (p : Reader α) : Reader (List α) := fun s => some (manyFrom p s)

/-- Items with separators between them, possibly none. -/
def separated (separator : Reader Unit) (p : Reader α) : Reader (List α) :=
  (do let first ← p
      let others ← many (do separator; p)
      pure (first :: others)) <|> pure []

/-- The text that a reader takes. -/
def spelled (p : Reader α) : Reader String := fun s =>
  match p s with
  | some (_, rest) => some (String.ofList (s.take (s.length - rest.length)), rest)
  | none => none

end Reader

end LinkState.Toml
