import LinkState.Toml.Text

/-!
# Numbers and date-times of TOML

* Digits may have single underscores between them.
* An integer is decimal with an optional sign and no leading zero, or has one of the marks `0x`,
  `0o` and `0b` and no sign; it is a 64-bit signed integer.
* A float is a decimal integer with a fraction, an exponent or both, or one of `inf` and `nan`. It
  is refused if it rounds to positive infinity (`Magnitude.overflows`).
* A date-time is a date, a time of day, or both with an optional offset. Days are those of the
  calendar, and a minute may have a leap second.
-/

namespace LinkState.Toml

open Reader

/-! ## 1. Integers -/

def isOctalDigit (c : Char) : Bool := '0' ≤ c && c ≤ '7'

def isBinaryDigit (c : Char) : Bool := c == '0' || c == '1'

/-- The digits of a run with single underscores between them. -/
def digits (p : Char → Bool) : Reader (List Char) := do
  let first ← char p
  let others ← many (char p <|> do exactly '_'; char p)
  pure (first :: others)

/-- Whether the sign is a minus; without a sign it is not. -/
def sign : Reader Bool := (do exactly '-'; pure true) <|> (do exactly '+'; pure false) <|> pure false

/-- The digits of a decimal integer, without a leading zero. -/
def decimalDigits : Reader (List Char) := do
  let ds ← digits Char.isDigit
  if ds.head? == some '0' then check (ds.length = 1)
  pure ds

/-- The integers go from minus this number to one less than it. -/
def integerLimit : Nat := Nat.pow 2 63

/-- An integer behind the mark of its base. -/
def markedInteger (mark : String) (base : Nat) (p : Char → Bool) : Reader Int := do
  word mark
  let n := digitsValue base (← digits p)
  check (n < integerLimit)
  pure n

def decimalInteger : Reader Int := do
  let negative ← sign
  let n := digitsValue 10 (← decimalDigits)
  if negative then
    check (n ≤ integerLimit)
    pure (-n)
  else
    check (n < integerLimit)
    pure n

def integer : Reader Int :=
  markedInteger "0x" 16 isHexDigit <|> markedInteger "0o" 8 isOctalDigit <|>
    markedInteger "0b" 2 isBinaryDigit <|> decimalInteger

/-! ## 2. Floats -/

/-- The number `digits · 10 ^ raised / 10 ^ lowered`. -/
structure Magnitude where
  digits : Nat
  raised : Nat
  lowered : Nat

/-- The least number that rounds to infinity: half a unit in the last of the 53 binary places above
    the largest finite double. -/
def overflowBound : Nat := Nat.pow 2 1024 - Nat.pow 2 970

/-- Whether the number rounds to infinity as a double. Exponents far from the bound are decided
    by their size, so that no power of ten grows beyond use. -/
def Magnitude.overflows (m : Magnitude) : Bool :=
  if m.digits = 0 then
    false
  else if m.lowered ≤ m.raised then
    m.raised - m.lowered > 308 || m.digits * Nat.pow 10 (m.raised - m.lowered) ≥ overflowBound
  else
    -- a number below `10 ^ lowered` is less than one
    m.lowered - m.raised ≤ Nat.log2 m.digits + 1 &&
      m.digits ≥ overflowBound * Nat.pow 10 (m.lowered - m.raised)

/-- The fraction of a float: its digits. -/
def fraction : Reader (List Char) := do exactly '.'; digits Char.isDigit

/-- The exponent of a float: whether it is negative, and its value. -/
def exponent : Reader (Bool × Nat) := do
  exactly 'e' <|> exactly 'E'
  let negative ← sign
  pure (negative, digitsValue 10 (← digits Char.isDigit))

/-- A float with digits. -/
def decimalFloat : Reader Unit := do
  let negative ← sign
  let whole ← decimalDigits
  let part ← optional fraction
  let power ← if part.isSome then optional exponent else some <$> exponent
  let places := part.getD []
  let scale := power.getD (false, 0)
  let magnitude : Magnitude :=
    { digits := digitsValue 10 (whole ++ places)
      raised := if scale.1 then 0 else scale.2
      lowered := places.length + if scale.1 then scale.2 else 0 }
  check (negative || !magnitude.overflows)

/-- One of the floats that are words. -/
def wordFloat : Reader Unit := do
  let _ ← sign
  word "inf" <|> word "nan"

/-- A float, as it is written. -/
def float : Reader String := spelled (decimalFloat <|> wordFloat)

/-! ## 3. Date-times -/

/-- A number of exactly so many digits, within bounds. -/
def fixed (width lo hi : Nat) : Reader Nat := do
  let cs ← (List.replicate width ()).mapM fun _ => char Char.isDigit
  let n := digitsValue 10 cs
  check (lo ≤ n && n ≤ hi)
  pure n

def isLeapYear (year : Nat) : Bool := year % 4 == 0 && (year % 100 != 0 || year % 400 == 0)

/-- How many days a month has. -/
def daysOfMonth (year month : Nat) : Nat :=
  if month == 2 then (if isLeapYear year then 29 else 28)
  else if month == 4 || month == 6 || month == 9 || month == 11 then 30
  else 31

def date : Reader Unit := do
  let year ← fixed 4 0 9999
  exactly '-'
  let month ← fixed 2 1 12
  exactly '-'
  let _ ← fixed 2 1 (daysOfMonth year month)

def time : Reader Unit := do
  let _ ← fixed 2 0 23
  exactly ':'
  let _ ← fixed 2 0 59
  exactly ':'
  let _ ← fixed 2 0 60
  let _ ← optional do
    exactly '.'
    let ds ← span Char.isDigit
    check (!ds.isEmpty)

def offset : Reader Unit :=
  exactly 'Z' <|> exactly 'z' <|> do
    exactly '+' <|> exactly '-'
    let _ ← fixed 2 0 23
    exactly ':'
    let _ ← fixed 2 0 59

/-- A date, a time of day or both, as it is written. -/
def dateTime : Reader String := spelled <|
  (do date
      let _ ← optional do
        let _ ← char fun c => c == 'T' || c == 't' || c == ' '
        time
        optional offset) <|> time

end LinkState.Toml
