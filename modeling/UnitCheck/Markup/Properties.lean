import UnitCheck.Markup.ScalarText
import UnitCheck.Text.Octets

/-!
# Anchors, tags and directives

The properties that may stand before a node, and the directives before a document. Each reader
starts at its indicator and moves behind the property.
-/

namespace UnitCheck.Markup

open TextM

/-- The name behind `&` or `*`: word characters up to spacing or an indicator that may follow. -/
def anchorName : TextM String := do
  skip
  let name ← takeWhile isWordChar
  let ends := match ← next? with
    | none => true
    | some x => isSpacing x || x == '?' || x == ':' || x == ',' || x == ']' || x == '\x7d' ||
        x == '%' || x == '@' || x == '\x60'
  if name.isEmpty ∨ !ends then failure
  return String.ofList name

/-! ## Tags -/

def isUriChar (c : Char) : Bool := isWordChar c || ";/?:@&=+$,.!~*'()[]".toList.contains c

/-- An octet that is written as a percent sign and two hexadecimal digits. -/
def takeOctet : TextM Nat := do
  need 3
  match (← get).rest with
  | '%' :: a :: b :: _ =>
    let high ← hexValue? a
    let low ← hexValue? b
    skipN 3
    return 16 * high + low
  | _ => failure

/-- The octets of a character behind the first. -/
def laterOctets : (count : Nat) → TextM (List Nat)
  | 0 => return []
  | count + 1 => do
    let octet ← takeOctet
    if !Text.Octets.isLater octet then failure
    return octet :: (← laterOctets count)

/-- Reads the characters of a tag, in reverse order. -/
def uriChars : (fuel : Nat) → List Char → TextM (List Char)
  | 0, text => return text
  | fuel + 1, text => do
    need 1
    match ← next? with
    | none => return text
    | some c =>
      if c = '%' then
        let first ← takeOctet
        let width ← Text.Octets.width? first
        let later ← laterOctets (width - 1)
        uriChars fuel ((Text.Octets.toChars 0 (first :: later)).reverse ++ text)
      else if isUriChar c then
        skip
        uriChars fuel (c :: text)
      else return text

/-- The text of a tag behind what was already read of it; at least one character in all. -/
def uri (started : List Char) : TextM String := do
  let text ← uriChars (← steps) []
  if started.isEmpty ∧ text.isEmpty then failure
  return String.ofList (started.drop 1 ++ text.reverse)

/-- A handle: `!`, word characters, and a second `!` if there is one. -/
def tagHandle : TextM (List Char) := do
  need 1
  if !(← nextIs '!') then failure
  skip
  let word ← takeWhile isWordChar
  if ← nextIs '!' then
    skip
    return '!' :: word ++ ['!']
  return '!' :: word

/-- A tag, as a handle and a suffix; the handle is empty for a verbatim tag and for `!` alone. -/
def tagName : TextM (String × String) := do
  need 2
  let tag ← if (← ahead? 1) = some '<' then do
      skipN 2
      let suffix ← uri []
      if !(← nextIs '>') then failure
      skip
      pure ("", suffix)
    else do
      let handle ← tagHandle
      if 1 < handle.length ∧ handle.getLast? = some '!' then
        pure (String.ofList handle, ← uri [])
      else
        let suffix ← uri handle
        pure (if suffix = "" then ("", "!") else ("!", suffix))
  need 1
  if !atSpacing (← get).rest then failure
  return tag

/-! ## Directives -/

def versionNumber : TextM Nat := do
  let digits ← takeWhile Char.isDigit
  if digits.isEmpty ∨ 2 < digits.length then failure
  return digits.foldl (fun n d => 10 * n + (d.toNat - 48)) 0

def versionDirective : TextM TokenKind := do
  skipWhile isGap
  let major ← versionNumber
  if !(← nextIs '.') then failure
  skip
  return .versionDirective major (← versionNumber)

def tagDirective : TextM TokenKind := do
  skipWhile isGap
  let handle ← tagHandle
  if handle ≠ ['!'] ∧ handle.getLast? ≠ some '!' then failure
  need 1
  if !(← next?).any isGap then failure
  skipWhile isGap
  let stem ← uri []
  need 1
  if !atSpacing (← get).rest then failure
  return .tagDirective (String.ofList handle) stem

/-- A directive and the place where it ends; then moves behind the rest of its line. -/
def directiveLine : TextM (TokenKind × Mark) := do
  skip
  let name ← takeWhile isWordChar
  if name.isEmpty ∨ !atSpacing (← get).rest then failure
  let kind ← match String.ofList name with
    | "YAML" => versionDirective
    | "TAG" => tagDirective
    | _ => failure
  let stop ← mark
  skipWhile isGap
  if ← nextIs '#' then skipWhile fun x => !isBreak x
  match ← next? with
  | none => pure ()
  | some c =>
    if !isBreak c then failure
    need 2
    skipBreak
  return (kind, stop)

end UnitCheck.Markup
