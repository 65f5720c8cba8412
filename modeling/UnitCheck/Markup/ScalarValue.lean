import UnitCheck.Number.Decimal
import UnitCheck.Text.Octets

/-!
# Values of scalars

A plain scalar without a tag stands for null, a truth value, an integer, a real, a date, or else for
its own text; which of them is read off the text. The tag of one of these kinds fixes the kind, and
a text that does not fit its tag has no value. Any other tag leaves the text as it is, apart from
that of binary data, which are decoded.
-/

namespace UnitCheck.Markup

open UnitCheck.Number

inductive ScalarValue where
  | null
  | bool (b : Bool)
  | int (n : Int)
  | real (x : Float)
  | date
  | text (s : String)
  deriving Repr

def tagNull : String := "!!null"
def tagBool : String := "!!bool"
def tagInt : String := "!!int"
def tagReal : String := "!!float"
def tagDate : String := "!!timestamp"
def tagText : String := "!!str"
def tagBinary : String := "!!binary"
def tagMerge : String := "!!merge"
def tagSequence : String := "!!seq"
def tagMapping : String := "!!map"

def ScalarValue.tag : ScalarValue → String
  | null => tagNull
  | bool _ => tagBool
  | int _ => tagInt
  | real _ => tagReal
  | date => tagDate
  | text _ => tagText

/-! ## Dates -/

def daysIn (year month : Nat) : Nat :=
  if month = 2 then
    if year % 4 = 0 ∧ (year % 100 ≠ 0 ∨ year % 400 = 0) then 29 else 28
  else if month = 4 ∨ month = 6 ∨ month = 9 ∨ month = 11 then 30
  else 31

def shortNumber? : List Char → Option (Nat × List Char)
  | a :: b :: rest =>
    if !a.isDigit then none
    else if b.isDigit then some (10 * (a.toNat - 48) + (b.toNat - 48), rest)
    else some (a.toNat - 48, b :: rest)
  | [a] => if a.isDigit then some (a.toNat - 48, []) else none
  | [] => none

def twoDigits? : List Char → Option (Nat × List Char)
  | a :: b :: rest =>
    if a.isDigit ∧ b.isDigit then some (10 * (a.toNat - 48) + (b.toNat - 48), rest) else none
  | _ => none

def expect? (c : Char) : List Char → Option (List Char)
  | x :: rest => if x = c then some rest else none
  | [] => none

def skipFraction : List Char → List Char
  | p :: d :: rest =>
    if (p = '.' ∨ p = ',') ∧ d.isDigit then rest.dropWhile Char.isDigit else p :: d :: rest
  | text => text

def clock? (text : List Char) : Option (List Char) := do
  let (hour, r) ← shortNumber? text
  let (minute, r) ← shortNumber? (← expect? ':' r)
  let (second, r) ← shortNumber? (← expect? ':' r)
  if hour < 24 ∧ minute < 60 ∧ second < 60 then some (skipFraction r) else none

/-- A time zone: `Z` or a signed distance of at most 24 hours and 60 minutes. -/
def zone? : List Char → Option (List Char)
  | 'Z' :: rest => some rest
  | sign :: rest => do
    if sign ≠ '+' ∧ sign ≠ '-' then none
    let (hour, r) ← twoDigits? rest
    let (minute, r) ← twoDigits? (← expect? ':' r)
    if hour ≤ 24 ∧ minute ≤ 60 then some r else none
  | [] => none

/-- Year, month and day, with a time of day if there is one. -/
def isDate (text : List Char) : Bool :=
  let year := text.takeWhile Char.isDigit
  let parsed : Option (List Char) := do
    if year.length ≠ 4 then none
    let (month, r) ← shortNumber? (← expect? '-' (text.drop 4))
    let (day, r) ← shortNumber? (← expect? '-' r)
    if month < 1 ∨ 12 < month ∨ day < 1 ∨ daysIn (Decimal.valueOf year) month < day then none
    match r with
    | [] => some []
    | 'T' :: r => zone? (← clock? r)
    | 't' :: r => zone? (← clock? r)
    | ' ' :: r => clock? (r.dropWhile (· == ' '))
    | _ => none
  parsed == some []

/-! ## Numbers -/

/-- A number after a sign or digit: an integer in any base, else a decimal fraction in range, else
an integer with its sign behind the base. -/
def numberValue? (text : List Char) : Option ScalarValue :=
  let plain := text.filter (· ≠ '_')
  let based (base : Nat) (digits : List Char) : Option ScalarValue :=
    (readSignedIn base digits).toOption.map .int
  match readSigned plain, readUnsigned plain with
  | .ok n, _ => some (.int n)
  | _, .ok n => some (.int n)
  | _, _ =>
    match (Decimal.read? plain).bind (·.toFloat?) with
    | some x => some (.real x)
    | none =>
      match plain with
      | '0' :: 'b' :: digits => based 2 digits
      | '0' :: 'o' :: digits => based 8 digits
      | '-' :: '0' :: 'b' :: digits => based 2 ('-' :: digits)
      | '-' :: '0' :: 'o' :: digits => based 8 ('-' :: digits)
      | _ => none

/-- A decimal fraction that starts with its point; low lines may separate digits. -/
def pointValue? (text : List Char) : Option ScalarValue :=
  if '_' ∈ text ∧ !lowLinesSeparate false false false text then none
  else ((Decimal.read? (text.filter (· ≠ '_'))).bind (·.toFloat?)).map .real

def positiveInfinity : Float := Float.ofBits 0x7ff0000000000000
def negativeInfinity : Float := Float.ofBits 0xfff0000000000000
def notANumber : Float := Float.ofBits 0x7ff8000000000001

/-- The texts that stand for a value of their own. -/
def namedValue? (s : String) : Option ScalarValue :=
  if ["", "~", "null", "Null", "NULL"].contains s then some .null
  else if ["true", "True", "TRUE"].contains s then some (.bool true)
  else if ["false", "False", "FALSE"].contains s then some (.bool false)
  else if [".nan", ".NaN", ".NAN"].contains s then some (.real notANumber)
  else if [".inf", ".Inf", ".INF", "+.inf", "+.Inf", "+.INF"].contains s then
    some (.real positiveInfinity)
  else if ["-.inf", "-.Inf", "-.INF"].contains s then some (.real negativeInfinity)
  else none

/-- What a plain text stands for; dates are recognised only where no tag asks for something else. -/
def plainValue (dates : Bool) (s : String) : ScalarValue :=
  match namedValue? s with
  | some v => v
  | none =>
    let text := s.toList
    match text with
    | [] => .null
    | c :: _ =>
      if c = '.' then (pointValue? text).getD (.text s)
      else if c.isDigit ∨ c = '+' ∨ c = '-' then
        if dates ∧ isDate text then .date else (numberValue? text).getD (.text s)
      else .text s

/-- The tags that ask for a kind of value other than text. -/
def valueTags : List String := [tagNull, tagBool, tagInt, tagReal, tagDate]

/-- The value of a scalar with a tag, if its text fits the tag. -/
def taggedValue? (tag s : String) : Option ScalarValue :=
  if tag = tagBinary then (Text.Octets.decodeBase64? s).map .text
  else if !valueTags.contains tag then some (.text s)
  else
    let v := plainValue (tag == tagDate) s
    if v.tag = tag then some v
    else match v with
      | .int n => if tag = tagReal ∧ n < Nat.pow 2 63 then some (.real (floatOfInt n)) else none
      | _ => none

/-- The words that count as truth values where a truth value is asked for. -/
def wordBool? (s : String) : Option Bool :=
  if ["y", "Y", "yes", "Yes", "YES", "on", "On", "ON"].contains s then some true
  else if ["n", "N", "no", "No", "NO", "off", "Off", "OFF"].contains s then some false
  else none

end UnitCheck.Markup
