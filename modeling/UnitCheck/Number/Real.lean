import UnitCheck.Number.Shortest

/-!
# Text of reals

A double is written with the fewest digits that read back. Values whose first digit stands at an
exponent from -4 to 5 are written positionally, others with an exponent of a sign and at least two
digits.
-/

namespace UnitCheck.Number

/-- The least and the first excluded exponent of positional notation. -/
structure RealFormat where
  leastPositional : Int
  firstExponential : Int

def realFormat : RealFormat := ⟨-4, 6⟩

/-- An exponent with its sign and at least two digits. -/
def exponentText (e : Int) : String :=
  let digits := toString e.natAbs
  (if e < 0 then "-" else "+") ++ (if digits.length < 2 then "0" ++ digits else digits)

/-- The text of a positive decimal `digits · 10 ^ exponent`. -/
def decimalText (format : RealFormat) (digits : Nat) (exponent : Int) : String :=
  let ds := Nat.toDigits 10 digits
  let first : Int := exponent + ds.length - 1
  if first < format.leastPositional ∨ format.firstExponential ≤ first then
    let head := ds.take 1
    let tail := ds.drop 1
    String.ofList (if tail.isEmpty then head else head ++ '.' :: tail) ++ "e" ++ exponentText first
  else if 0 ≤ exponent then
    String.ofList (ds ++ List.replicate exponent.toNat '0')
  else if 0 ≤ first then
    let whole := (first + 1).toNat
    String.ofList (ds.take whole ++ '.' :: ds.drop whole)
  else
    String.ofList ('0' :: '.' :: List.replicate (-first - 1).toNat '0' ++ ds)

def realText (x : Float) : String :=
  let bits : Nat := x.toBits.toNat
  let negative := Nat.pow 2 63 ≤ bits
  let exponent : Nat := bits / Nat.pow 2 52 % Nat.pow 2 11
  let fraction : Nat := bits % Nat.pow 2 52
  if exponent = 2047 then
    if fraction ≠ 0 then "NaN" else if negative then "-Inf" else "+Inf"
  else
    let sign := if negative then "-" else ""
    if exponent = 0 ∧ fraction = 0 then sign ++ "0"
    else
      let (m, q) : Nat × Int :=
        if exponent = 0 then (fraction, -1074)
        else (fraction + Nat.pow 2 52, (exponent : Int) - 1075)
      let (digits, e) := Shortest.shortest m q
      sign ++ decimalText realFormat digits e

end UnitCheck.Number
