/-!
# Integer literals

Integers as they are written in units, configurations and arguments: an optional sign, an optional
base (`0b`, `0o`, `0x`, or a leading zero for octal), digits, and low lines between digits. Reading
goes from left to right, so a literal that leaves the range is out of range even when a later
character could not be read.
-/

namespace UnitCheck.Number

inductive ReadError where
  | malformed
  | outOfRange
  deriving Repr, DecidableEq

/-- The value of an alphanumeric digit. -/
def digitValue? (c : Char) : Option Nat :=
  let n := c.toNat
  if 48 ≤ n ∧ n ≤ 57 then some (n - 48)
  else if 97 ≤ n ∧ n ≤ 122 then some (n - 87)
  else if 65 ≤ n ∧ n ≤ 90 then some (n - 55)
  else none

/-- Reads digits of a base onto `acc`, skipping low lines if they are allowed, up to `limit`. -/
def readDigits (base limit : Nat) (skipLow : Bool) : (acc : Nat) → List Char → Except ReadError Nat
  | acc, [] => .ok acc
  | acc, c :: rest =>
    if skipLow ∧ c = '_' then readDigits base limit skipLow acc rest
    else match digitValue? c with
      | none => .error .malformed
      | some d =>
        if base ≤ d then .error .malformed
        else if limit < acc * base + d then .error .outOfRange
        else readDigits base limit skipLow (acc * base + d) rest

/-- The base that a literal announces, and the digits after the announcement. -/
def announcedBase : List Char → Nat × List Char
  | '0' :: c :: d :: rest =>
    if c = 'b' ∨ c = 'B' then (2, d :: rest)
    else if c = 'o' ∨ c = 'O' then (8, d :: rest)
    else if c = 'x' ∨ c = 'X' then (16, d :: rest)
    else (8, c :: d :: rest)
  | '0' :: rest => (8, rest)
  | text => (10, text)

/-- Low lines stand only after a digit or base, and only before a digit. -/
def lowLinesSeparate (isHex : Bool) : (afterDigit afterLow : Bool) → List Char → Bool
  | _, afterLow, [] => !afterLow
  | afterDigit, afterLow, c :: rest =>
    let digit := c.isDigit || (isHex && (('a' ≤ c && c ≤ 'f') || ('A' ≤ c && c ≤ 'F')))
    if digit then lowLinesSeparate isHex true false rest
    else if c = '_' then afterDigit && lowLinesSeparate isHex false true rest
    else !afterLow && lowLinesSeparate isHex false false rest

/-- Whether the low lines of an unsigned literal are where they may be. -/
def lowLinesAllowed (text : List Char) : Bool :=
  match text with
  | '0' :: c :: rest =>
    if c = 'x' ∨ c = 'X' then lowLinesSeparate true true false rest
    else if c = 'b' ∨ c = 'B' ∨ c = 'o' ∨ c = 'O' then lowLinesSeparate false true false rest
    else lowLinesSeparate false false false text
  | _ => lowLinesSeparate false false false text

def maxUnsigned : Nat := Nat.pow 2 64 - 1

def splitSign : List Char → Bool × List Char
  | '-' :: rest => (true, rest)
  | '+' :: rest => (false, rest)
  | text => (false, text)

/-- An unsigned 64-bit literal in the base that it announces. -/
def readUnsigned (text : List Char) : Except ReadError Nat :=
  if text.isEmpty then .error .malformed else
  let (base, digits) := announcedBase text
  match readDigits base maxUnsigned true 0 digits with
  | .ok n => if '_' ∈ text ∧ !lowLinesAllowed text then .error .malformed else .ok n
  | .error e => .error e

/-- Puts a sign on a magnitude, within the signed 64-bit range. -/
def applySign (negative : Bool) (n : Nat) : Except ReadError Int :=
  if negative then if n ≤ Nat.pow 2 63 then .ok (-(n : Int)) else .error .outOfRange
  else if n < Nat.pow 2 63 then .ok n else .error .outOfRange

/-- A signed 64-bit literal in the base that it announces. -/
def readSigned (text : List Char) : Except ReadError Int :=
  let (negative, digits) := splitSign text
  match readUnsigned digits with
  | .ok n => applySign negative n
  | .error e => .error e

/-- A signed 64-bit literal in a fixed base, without low lines. -/
def readSignedIn (base : Nat) (text : List Char) : Except ReadError Int :=
  let (negative, digits) := splitSign text
  if digits.isEmpty then .error .malformed else
  match readDigits base maxUnsigned false 0 digits with
  | .ok n => applySign negative n
  | .error e => .error e

/-- A signed decimal number: digits with an optional sign. -/
def readDecimal? (text : List Char) : Option Int := (readSignedIn 10 text).toOption

end UnitCheck.Number
