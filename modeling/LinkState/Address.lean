/-!
# Addresses and masks

An address is a 32-bit word, written as four decimal octets with dots between them. Masks are
addresses too: every bit of a mask that is set keeps the bit of the address it is combined with.

* `text` writes an address, `ofText?` reads one; reading takes the written form only, so an octet
  has no leading zero and no sign;
* `combine` clears the bits outside a mask (`combine_combine`: doing it twice changes nothing);
* `prefixLength?` gives the length of a contiguous mask and nothing for any other mask.
-/

namespace LinkState

/-- A 32-bit address. -/
structure Address where
  bits : BitVec 32
deriving DecidableEq, Inhabited

namespace Address

/-! ## 1. Addresses as numbers -/

/-- The address as a number. Addresses are ordered by it. -/
def value (a : Address) : Nat := a.bits.toNat

instance : LT Address := ⟨fun a b => a.value < b.value⟩

instance (a b : Address) : Decidable (a < b) := inferInstanceAs (Decidable (a.value < b.value))

theorem lt_iff {a b : Address} : a < b ↔ a.value < b.value := Iff.rfl

@[ext] theorem ext_value {a b : Address} (h : a.value = b.value) : a = b := by
  cases a; cases b
  exact congrArg mk (BitVec.eq_of_toNat_eq h)

theorem value_lt (a : Address) : a.value < UInt32.size := a.bits.isLt

/-- The address of the four octets `a.b.c.d`. -/
def ofOctets (a b c d : Nat) : Address :=
  ⟨BitVec.ofNat 32 (((a * 256 + b) * 256 + c) * 256 + d)⟩

/-- `0.0.0.0`: no address at all. As a next hop it stands for a destination that is attached. -/
def unspecified : Address := ⟨0⟩

/-- `255.255.255.255`: the mask that keeps every bit. -/
def hostMask : Address := ⟨BitVec.allOnes 32⟩

/-! ## 2. Written form -/

/-- The four octets, the highest first. -/
def octets (a : Address) : List Nat :=
  [a.value / 0x1000000 % 256, a.value / 0x10000 % 256, a.value / 0x100 % 256, a.value % 256]

/-- The written form: four decimal octets with dots between them. -/
def text (a : Address) : String := ".".intercalate (a.octets.map toString)

/-- The value of a run of decimal digits. -/
def digitsValue (cs : List Char) : Nat :=
  cs.foldl (fun n c => 10 * n + (c.toNat - '0'.toNat)) 0

/-- Reads an octet: one to three decimal digits without a leading zero, at most 255. -/
def octet? (cs : List Char) : Option Nat :=
  if cs.all Char.isDigit && cs.length != 0 && cs.length ≤ 3 && (cs.length == 1 || cs.head? != some '0')
      && digitsValue cs ≤ 255 then
    some (digitsValue cs)
  else
    none

/-- The parts of a text between its dots; a text without a dot is one part. -/
def dotted : List Char → List (List Char)
  | [] => [[]]
  | c :: cs =>
    if c = '.' then
      [] :: dotted cs
    else
      match dotted cs with
      | [] => [[c]]
      | part :: parts => (c :: part) :: parts

/-- Reads an address from its written form, and nothing else. -/
def ofText? (s : String) : Option Address :=
  match dotted s.toList with
  | [a, b, c, d] => do
    let a ← octet? a
    let b ← octet? b
    let c ← octet? c
    let d ← octet? d
    pure (ofOctets a b c d)
  | _ => none

/-! ## 3. Masks -/

/-- The bits of the address inside the mask; all others are cleared. -/
def combine (a mask : Address) : Address := ⟨a.bits &&& mask.bits⟩

theorem combine_combine (a mask : Address) : (a.combine mask).combine mask = a.combine mask := by
  simp [combine, BitVec.and_assoc]

theorem combine_hostMask (a : Address) : a.combine hostMask = a := by
  exact congrArg mk BitVec.and_allOnes

theorem combine_unspecified (a : Address) : a.combine unspecified = unspecified := by
  simp [combine, unspecified]

/-- How many bits of a mask are set. -/
def oneBits (mask : Address) : Nat := (List.range 32).countP (mask.bits.getLsbD ·)

/-- The contiguous mask of a length: that many set bits from the highest one down. -/
def ofPrefixLength (length : Nat) : Address := ⟨BitVec.allOnes 32 <<< (32 - length)⟩

/-- The length of a contiguous mask, `0.0.0.0` (length 0) and `255.255.255.255` (length 32)
    included; `none` for a mask that sets a bit below one that it clears. -/
def prefixLength? (mask : Address) : Option Nat :=
  (List.range 33).find? fun length => mask = ofPrefixLength length

/-- A mask has a length exactly if it is the mask of one. -/
theorem prefixLength?_isSome_iff (mask : Address) :
    mask.prefixLength?.isSome ↔ ∃ length, length ≤ 32 ∧ mask = ofPrefixLength length := by
  simp [prefixLength?, List.find?_isSome, Nat.lt_succ_iff]

end Address

end LinkState
