/-!
# Octets

Characters as sequences of octets. Octets that spell no character are shown as replacement
characters, one for each of them.
-/

namespace UnitCheck.Text.Octets

def width? (octet : Nat) : Option Nat :=
  if octet < 0x80 then some 1
  else if octet / 32 = 6 then some 2
  else if octet / 16 = 14 then some 3
  else if octet / 8 = 30 then some 4
  else none

def leadBits (octet : Nat) : Nat :=
  if octet < 0x80 then octet
  else if octet / 32 = 6 then octet % 32
  else if octet / 16 = 14 then octet % 16
  else octet % 8

/-- Whether an octet is one of those behind the first. -/
def isLater (octet : Nat) : Bool := octet / 64 == 2

/-- The number of octets of a code point. -/
def widthOf (code : Nat) : Nat :=
  if code < 0x80 then 1 else if code < 0x800 then 2 else if code < 0x10000 then 3 else 4

/-- The character that the octets start with, and the number of its octets. -/
def first? (octets : List Nat) : Option (Char × Nat) := do
  let lead ← octets.head?
  let width ← width? lead
  let later := octets.tail.take (width - 1)
  let code := later.foldl (fun code octet => 64 * code + octet % 64) (leadBits lead)
  if later.all isLater ∧ code.isValidChar ∧ widthOf code = width ∧ later.length + 1 = width then
    some (Char.ofNat code, width)
  else none

/-- The text that octets spell, when the first `skip` of them have been dealt with. -/
def toChars : (skip : Nat) → List Nat → List Char
  | _, [] => []
  | skip + 1, _ :: rest => toChars skip rest
  | 0, octet :: rest =>
    match first? (octet :: rest) with
    | some (c, width) => c :: toChars (width - 1) rest
    | none => '\ufffd' :: toChars 0 rest

/-! ## Base 64 -/

/-- The six bits that a character stands for. -/
def sextet? (c : Char) : Option Nat :=
  let n := c.toNat
  if 65 ≤ n ∧ n ≤ 90 then some (n - 65)
  else if 97 ≤ n ∧ n ≤ 122 then some (n - 71)
  else if 48 ≤ n ∧ n ≤ 57 then some (n + 4)
  else if c = '+' then some 62
  else if c = '/' then some 63
  else none

/-- The octets of a text in groups of four characters; the last group may be filled up with one or
two equals signs. -/
def ofBase64? : List Char → Option (List Nat)
  | [] => some []
  | [a, b, '=', '='] => do
    let x ← sextet? a
    let y ← sextet? b
    some [4 * x + y / 16]
  | [a, b, c, '='] => do
    let x ← sextet? a
    let y ← sextet? b
    let z ← sextet? c
    some [4 * x + y / 16, y % 16 * 16 + z / 4]
  | a :: b :: c :: d :: rest => do
    let x ← sextet? a
    let y ← sextet? b
    let z ← sextet? c
    let w ← sextet? d
    let octets ← ofBase64? rest
    some ((4 * x + y / 16) :: (y % 16 * 16 + z / 4) :: (z % 4 * 64 + w) :: octets)
  | _ => none

/-- The text that is given in base 64; line breaks in it do not count. -/
def decodeBase64? (text : String) : Option String :=
  (ofBase64? (text.toList.filter fun c => c ≠ '\n' ∧ c ≠ '\r')).map fun octets =>
    String.ofList (toChars 0 octets)

end UnitCheck.Text.Octets
