import UnitCheck.Number.Integer
import UnitCheck.Text.Quoted

/-!
# Lexemes of type annotations

An annotation is split into names, integers and single characters; blanks, tabs and line breaks
separate them. Columns count characters from one and start again after a line feed. A text that
cannot be split ends in a `broken` lexeme that says why; so does a lexeme directly before such a
place, because the character behind a lexeme is always looked at.
-/

namespace UnitCheck

/-- The written form of an integer. -/
inductive Radix where
  | binary | octal | decimal | hexadecimal
  deriving Repr, DecidableEq, Inhabited

namespace Radix

def base : Radix → Nat
  | binary => 2
  | octal => 8
  | decimal => 10
  | hexadecimal => 16

def name : Radix → String
  | binary => "binary literal"
  | octal => "octal literal"
  | decimal => "decimal literal"
  | hexadecimal => "hexadecimal literal"

end Radix

inductive LexFault where
  | nul
  | noDigits (radix : Radix)
  | invalidDigit (digit : Char) (radix : Radix)
  | misplacedSeparator
  deriving Repr, DecidableEq

def LexFault.message : LexFault → String
  | nul => "invalid character NUL"
  | noDigits radix => radix.name ++ " has no digits"
  | invalidDigit digit radix => "invalid digit " ++ Text.quotedChar digit ++ " in " ++ radix.name
  | misplacedSeparator => "'_' must separate successive digits"

inductive LexemeKind where
  | name (text : String)
  | integer (text : String)
  | symbol (c : Char)
  | broken (fault : LexFault)
  deriving Repr, DecidableEq

structure Lexeme where
  kind : LexemeKind
  column : Nat
  deriving Repr, DecidableEq

namespace Lexeme

/-- The blanks between lexemes. -/
def isBlank (c : Char) : Bool := c == ' ' || c == '\t' || c == '\n' || c == '\r'

def isHexDigit (c : Char) : Bool := c.isDigit || ('a' ≤ c && c ≤ 'f') || ('A' ≤ c && c ≤ 'F')

/-- The written form that the start of an integer announces, with the length of the announcement. -/
def announcedRadix : List Char → Radix × Nat
  | '0' :: c :: _ =>
    if c = 'x' ∨ c = 'X' then (.hexadecimal, 2)
    else if c = 'o' ∨ c = 'O' then (.octal, 2)
    else if c = 'b' ∨ c = 'B' then (.binary, 2)
    else (.octal, 0)
  | ['0'] => (.octal, 0)
  | _ => (.decimal, 0)

/-- The characters of the integer at the start of a text. -/
def integerChars (text : List Char) : List Char :=
  let (radix, announced) := announcedRadix text
  let isPart (c : Char) : Bool :=
    c == '_' || if radix = .hexadecimal then isHexDigit c else c.isDigit
  text.take announced ++ (text.drop announced).takeWhile isPart

/-- What is wrong with the characters of an integer, if anything. -/
def integerFault? (chars : List Char) : Option LexFault :=
  let (radix, announced) := announcedRadix chars
  let digits := (chars.drop announced).filter (· ≠ '_')
  if digits.isEmpty then some (.noDigits radix)
  else match digits.find? (fun c => radix ≠ .hexadecimal && decide (radix.base ≤ c.toNat - 48)) with
    | some c => some (.invalidDigit c radix)
    | none =>
      if '_' ∈ chars ∧ !Number.lowLinesAllowed chars then some .misplacedSeparator else none

/-- The lexeme at the start of a text whose first character is no blank, and its length. -/
def first (c : Char) (rest : List Char) : LexemeKind × Nat :=
  if Text.startsName c then
    let chars := c :: rest.takeWhile Text.continuesName
    (.name (String.ofList chars), chars.length)
  else if c.isDigit then
    let chars := integerChars (c :: rest)
    match integerFault? chars with
    | some fault => (.broken fault, chars.length)
    | none => (.integer (String.ofList chars), chars.length)
  else (.symbol c, 1)

/-- Splits a text; `skip` characters belong to the lexeme before. -/
def splitFrom : List Char → (column skip : Nat) → List Lexeme
  | [], _, _ => []
  | c :: rest, column, skip =>
    let next := if c = '\n' then 1 else column + 1
    match skip with
    | skip + 1 => splitFrom rest next skip
    | 0 =>
      if c = '\x00' then [⟨.broken .nul, column⟩]
      else if isBlank c then splitFrom rest next 0
      else
        let (kind, length) := first c rest
        if rest[length - 1]? = some '\x00' then [⟨.broken .nul, column⟩]
        else match kind with
          | .broken _ => [⟨kind, column⟩]
          | _ => ⟨kind, column⟩ :: splitFrom rest next (length - 1)

/-- The lexemes of an annotation. A byte order mark at its start is passed over but takes a
column. -/
def split (text : String) : List Lexeme :=
  match text.toList with
  | '\ufeff' :: rest => splitFrom rest 2 0
  | chars => splitFrom chars 1 0

end Lexeme

end UnitCheck
