import UnitCheck.Source.Position

/-!
# Diagnostics

A diagnostic is a coded message at a position, with notes below it. Codes fall into categories; a
code of the warning category makes a warning. A `Fault` is anything that can go wrong: a diagnostic,
an ordinary message, or either of them in a wider context.
-/

namespace UnitCheck

/-- The groups that codes fall into. -/
inductive Category where
  | symbol | type | borrow | warning | internal
  deriving Repr, DecidableEq, Inhabited

namespace Category

def name : Category → String
  | symbol => "symbol error"
  | type => "type error"
  | borrow => "borrow error"
  | warning => "warning"
  | internal => "internal error"

def all : List Category := [symbol, type, borrow, warning, internal]

/-- The name of the category with this number; other numbers are shown as numbers. -/
def nameOfNumber (n : Int) : String :=
  if n < 0 then s!"Category({n})" else
  match all[n.toNat]? with
  | some c => c.name
  | none => s!"Category({n})"

end Category

/-- What went wrong. Codes are numbered in this order; a number outside the list is kept as it
is. -/
inductive Code where
  | notFound | alreadyDeclared | invalidVisibility | invalidScope | importError
  | typeMismatch | invalidType | undefinedType | typeNotFound | invalidTypeParameter | recursiveType
  | multipleMutableBorrows | mutableBorrowWithImmutableBorrows | useAfterMove
  | uninitializedVariable | immutableWrite
  | unusedSymbol | danglingBorrow
  | internal
  | unlisted (number : Int)
  deriving Repr, DecidableEq, Inhabited

namespace Code

def listed : List Code :=
  [notFound, alreadyDeclared, invalidVisibility, invalidScope, importError, typeMismatch,
    invalidType, undefinedType, typeNotFound, invalidTypeParameter, recursiveType,
    multipleMutableBorrows, mutableBorrowWithImmutableBorrows, useAfterMove, uninitializedVariable,
    immutableWrite, unusedSymbol, danglingBorrow, internal]

def ofNumber (n : Int) : Code := if n < 0 then unlisted n else (listed[n.toNat]?).getD (unlisted n)

def name : Code → String
  | notFound => "NotFound"
  | alreadyDeclared => "AlreadyDeclared"
  | invalidVisibility => "InvalidVisibility"
  | invalidScope => "InvalidScope"
  | importError => "ImportError"
  | typeMismatch => "TypeMismatch"
  | invalidType => "InvalidType"
  | undefinedType => "UndefinedType"
  | typeNotFound => "TypeNotFound"
  | invalidTypeParameter => "InvalidTypeParameter"
  | recursiveType => "RecursiveType"
  | multipleMutableBorrows => "MultipleMutableBorrows"
  | mutableBorrowWithImmutableBorrows => "MutableBorrowWithImmutableBorrows"
  | useAfterMove => "UseAfterMove"
  | uninitializedVariable => "UninitializedVariable"
  | immutableWrite => "ImmutableWrite"
  | unusedSymbol => "UnusedSymbol"
  | danglingBorrow => "DanglingBorrow"
  | internal => "Internal"
  | unlisted n => s!"Code({n})"

/-- An unlisted number below the list counts as a symbol error, one above it as internal. -/
def category : Code → Category
  | notFound | alreadyDeclared | invalidVisibility | invalidScope | importError => .symbol
  | typeMismatch | invalidType | undefinedType | typeNotFound | invalidTypeParameter
  | recursiveType => .type
  | multipleMutableBorrows | mutableBorrowWithImmutableBorrows | useAfterMove
  | uninitializedVariable | immutableWrite => .borrow
  | unusedSymbol | danglingBorrow => .warning
  | internal => .internal
  | unlisted n => if n < 0 then .symbol else .internal

end Code

inductive Severity where
  | error | warning
  deriving Repr, DecidableEq, Inhabited

def Severity.name : Severity → String
  | .error => "error"
  | .warning => "warning"

structure Diagnostic where
  code : Code
  severity : Severity
  pos : Position
  message : String
  notes : List String := []
  deriving Repr, DecidableEq, Inhabited

namespace Diagnostic

/-- A diagnostic of the severity that its code calls for. -/
def mk' (code : Code) (pos : Position) (message : String) : Diagnostic :=
  { code, pos, message
    severity := if code.category = .warning then .warning else .error }

def warn (code : Code) (pos : Position) (message : String) : Diagnostic :=
  { code, pos, message, severity := .warning }

def note (d : Diagnostic) (text : String) : Diagnostic := { d with notes := d.notes ++ [text] }

/-- Fills in the position of a diagnostic that was made without one. -/
def placed (d : Diagnostic) (pos : Position) : Diagnostic := { d with pos := d.pos.orElse pos }

def text (d : Diagnostic) : String := s!"{d.pos.text}: {d.message}"

/-- The diagnostic with its severity and code, one note a line. -/
def detail (d : Diagnostic) : String :=
  let head := s!"{d.pos.text}: {d.severity.name}[{d.code.name}]: {d.message}"
  d.notes.foldl (fun acc n => acc ++ "\nnote: " ++ n) head

def isWarning (d : Diagnostic) : Bool := d.severity == .warning

/-- Source order; diagnostics at one position keep their order. -/
def sorted (ds : List Diagnostic) : List Diagnostic :=
  ds.mergeSort (fun a b => !(b.pos.before a.pos))

end Diagnostic

/-- Anything that can go wrong. -/
inductive Fault where
  | diagnostic (d : Diagnostic)
  | plain (text : String)
  | within (context : String) (inner : Fault)
  deriving Repr, Inhabited

namespace Fault

def text : Fault → String
  | diagnostic d => d.text
  | plain t => t
  | within context inner => context ++ ": " ++ inner.text

/-- The diagnostic at the bottom of a fault, if there is one. -/
def diagnostic? : Fault → Option Diagnostic
  | diagnostic d => some d
  | plain _ => none
  | within _ inner => inner.diagnostic?

def hasCode (f : Fault) (code : Code) : Bool :=
  match f.diagnostic? with
  | some d => d.code == code
  | none => false

/-- The diagnostic of a fault with its position filled in; a fault without one is a type
mismatch. -/
def placed (f : Fault) (pos : Position) : Diagnostic :=
  match f.diagnostic? with
  | some d => d.placed pos
  | none => Diagnostic.mk' .typeMismatch pos f.text

end Fault

end UnitCheck
