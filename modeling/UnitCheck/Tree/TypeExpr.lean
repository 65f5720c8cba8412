import UnitCheck.Source.Position
import UnitCheck.Text.Segments

/-!
# Type annotations

Types as they are written in a unit, before any name in them has been looked up, and their text.
-/

namespace UnitCheck

inductive TypeExpr where
  | named (path : List String) (args : List TypeExpr) (pos : Position)
  /-- An array; `none` when its length is not given. -/
  | array (elem : TypeExpr) (length : Option Int) (pos : Position)
  | tuple (elems : List TypeExpr) (pos : Position)
  /-- A function; `none` when its result is not given. -/
  | func (params : List TypeExpr) (result : Option TypeExpr) (pos : Position)
  | ref (inner : TypeExpr) (mutable : Bool) (lifetime : Option String) (pos : Position)
  deriving Repr, Inhabited

namespace TypeExpr

def pos : TypeExpr → Position
  | named _ _ p => p
  | array _ _ p => p
  | tuple _ p => p
  | func _ _ p => p
  | ref _ _ _ p => p

/-- The text between `&` and the target of a reference. -/
def refMark (mutable : Bool) (lifetime : Option String) : String :=
  "&" ++ (match lifetime with
    | some l => "'" ++ l ++ " "
    | none => "") ++ (if mutable then "mut " else "")

mutual

/-- An annotation the way it is written in a unit; a function always shows its result. -/
def text : TypeExpr → String
  | named path args _ =>
    match args with
    | [] => Text.dotted path
    | _ => Text.dotted path ++ "<" ++ ", ".intercalate (texts args) ++ ">"
  | array elem length _ =>
    match length with
    | some n => "[" ++ elem.text ++ "; " ++ toString n ++ "]"
    | none => "[" ++ elem.text ++ "]"
  | tuple elems _ => "(" ++ ", ".intercalate (texts elems) ++ ")"
  | func params result _ =>
    "fn(" ++ ", ".intercalate (texts params) ++ ") -> " ++ resultText result
  | ref inner mutable lifetime _ => refMark mutable lifetime ++ inner.text

def texts : List TypeExpr → List String
  | [] => []
  | a :: rest => a.text :: texts rest

def resultText : Option TypeExpr → String
  | none => "()"
  | some a => a.text

end

/-- The text of an annotation that may be missing; a missing one is the unit type. -/
def textOrUnit (a : Option TypeExpr) : String := resultText a

end TypeExpr

end UnitCheck
