import UnitCheck.Number.Integer

/-!
# Decimal fractions

Decimal fractions as they are written, `digits · 10 ^ exponent` with a sign, and the double nearest
to one: a value exactly between two doubles goes to the one with the even significand.
-/

namespace UnitCheck.Number

structure Decimal where
  negative : Bool
  digits : Nat
  exponent : Int
  deriving Repr, DecidableEq

namespace Decimal

def takeDigits (text : List Char) : List Char × List Char :=
  (text.takeWhile Char.isDigit, text.dropWhile Char.isDigit)

def valueOf (digits : List Char) : Nat := digits.foldl (fun n c => 10 * n + (c.toNat - 48)) 0

/-- The exponent part: empty, or `e`, an optional sign and digits, with nothing after it. -/
def readExponent? : List Char → Option Int
  | [] => some 0
  | c :: rest =>
    if c = 'e' ∨ c = 'E' then
      let (negative, digits) := splitSign rest
      if digits.isEmpty ∨ !digits.all Char.isDigit then none
      else some (if negative then -(valueOf digits : Int) else valueOf digits)
    else none

/-- Digits with an optional point, at least one digit before it or after a leading one, and an
optional exponent. -/
def read? (text : List Char) : Option Decimal :=
  let (negative, body) := splitSign text
  let (whole, rest) := takeDigits body
  let (fraction, tail) := match rest with
    | '.' :: more => takeDigits more
    | _ => ([], rest)
  if whole.isEmpty ∧ fraction.isEmpty then none
  else match readExponent? tail with
    | none => none
    | some e => some ⟨negative, valueOf (whole ++ fraction), e - fraction.length⟩

/-- The bits of the double nearest to `num / den`, for positive arguments; `none` when that lies
beyond the largest double. -/
def nearestBits? (num den : Nat) : Option Nat :=
  -- `e` is the exponent of the last place of the significand, at least that of the subnormals
  let estimate : Int := (num.log2 : Int) - (den.log2 : Int) - 52
  let quotient (e : Int) : Nat × Nat × Nat :=
    let n := if e < 0 then num * Nat.pow 2 (-e).toNat else num
    let d := if e < 0 then den else den * Nat.pow 2 e.toNat
    (n / d, n % d, d)
  let e := if (quotient estimate).1 < Nat.pow 2 52 then estimate - 1 else estimate
  let e := max e (-1074)
  let (q, r, d) := quotient e
  let q := if d < 2 * r ∨ (2 * r = d ∧ q % 2 = 1) then q + 1 else q
  let (q, e) := if q = Nat.pow 2 53 then (Nat.pow 2 52, e + 1) else (q, e)
  if q < Nat.pow 2 52 then some q
  else if 971 < e then none
  else some ((e + 1075).toNat * Nat.pow 2 52 + (q - Nat.pow 2 52))

/-- The double nearest to a decimal fraction; `none` when it lies beyond the largest double. -/
def toFloat? (d : Decimal) : Option Float :=
  let sign : Nat := if d.negative then Nat.pow 2 63 else 0
  let size : Int := (Nat.toDigits 10 d.digits).length + d.exponent
  let bits? :=
    if d.digits = 0 ∨ size < -400 then some 0
    else if 400 < size then none
    else if d.exponent < 0 then nearestBits? d.digits (Nat.pow 10 (-d.exponent).toNat)
    else nearestBits? (d.digits * Nat.pow 10 d.exponent.toNat) 1
  bits?.map fun bits => Float.ofBits (sign + bits).toUInt64

end Decimal

/-- The double nearest to an integer of 64 bits. -/
def floatOfInt (n : Int) : Float := ((⟨decide (n < 0), n.natAbs, 0⟩ : Decimal).toFloat?).getD 0

end UnitCheck.Number
