/-!
# Operators

The operators of binary and prefix expressions, their spellings, and the classes the checker asks
about. Operators are also known by number; a number outside the table is no operator.
-/

namespace UnitCheck

inductive Operator where
  | illegal
  | assign
  | plus | minus | star | slash | percent
  | bang | andAnd | orOr
  | eq | notEq | lt | ltEq | gt | gtEq
  | dotDot | dotDotEq
  | amp | ampMut | deref
  deriving Repr, DecidableEq, Inhabited

namespace Operator

def all : List Operator :=
  [illegal, assign, plus, minus, star, slash, percent, bang, andAnd, orOr, eq, notEq, lt, ltEq, gt,
    gtEq, dotDot, dotDotEq, amp, ampMut, deref]

def number (op : Operator) : Nat := all.idxOf op

def ofNumber? (n : Int) : Option Operator := if n < 0 then none else all[n.toNat]?

def spelling : Operator → String
  | illegal => "illegal"
  | assign => "="
  | plus => "+"
  | minus => "-"
  | star => "*"
  | slash => "/"
  | percent => "%"
  | bang => "!"
  | andAnd => "&&"
  | orOr => "||"
  | eq => "=="
  | notEq => "!="
  | lt => "<"
  | ltEq => "<="
  | gt => ">"
  | gtEq => ">="
  | dotDot => ".."
  | dotDotEq => "..="
  | amp => "&"
  | ampMut => "&mut"
  | deref => "*"

/-- The spelling of the operator with this number; other numbers are shown as numbers. -/
def spellingOfNumber (n : Int) : String :=
  match ofNumber? n with
  | some op => op.spelling
  | none => s!"Kind({n})"

def isArithmetic : Operator → Bool
  | plus | minus | star | slash | percent => true
  | _ => false

def isOrdering : Operator → Bool
  | lt | ltEq | gt | gtEq => true
  | _ => false

def isEquality : Operator → Bool
  | eq | notEq => true
  | _ => false

def isLogical : Operator → Bool
  | andAnd | orOr => true
  | _ => false

def isRange : Operator → Bool
  | dotDot | dotDotEq => true
  | _ => false

def binary : List Operator :=
  [assign, plus, minus, star, slash, percent, andAnd, orOr, eq, notEq, lt, ltEq, gt, gtEq,
    dotDot, dotDotEq]

/-- The operators that stand before one operand; here `*` dereferences. -/
def unary : List Operator := [minus, bang, amp, ampMut, deref]

def binary? (text : String) : Option Operator := binary.find? (·.spelling == text)

def unary? (text : String) : Option Operator := unary.find? (·.spelling == text)

end Operator

end UnitCheck
