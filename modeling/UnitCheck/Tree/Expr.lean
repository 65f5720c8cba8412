import UnitCheck.Source.Operator
import UnitCheck.Tree.TypeExpr

/-!
# Literals, expressions and patterns
-/

namespace UnitCheck

/-- A name with the place where it is written. -/
structure Label where
  text : String
  pos : Position
  deriving Repr, DecidableEq, Inhabited

inductive Literal where
  | int (value : Int)
  | float (value : Float)
  | bool (value : Bool)
  | char (value : Char)
  | string (value : String)
  | unit
  deriving Repr, Inhabited

inductive Expr where
  | literal (value : Literal) (pos : Position)
  | ident (name : String) (pos : Position)
  /-- A qualified name such as `geometry::origin`. -/
  | path (segments : List String) (pos : Position)
  | binary (op : Operator) (left right : Expr) (pos : Position)
  | unary (op : Operator) (operand : Expr) (pos : Position)
  | call (callee : Expr) (args : List Expr) (pos : Position)
  | methodCall (receiver : Expr) (name : String) (args : List Expr) (pos : Position)
  | member (target : Expr) (name : String) (pos : Position)
  | index (target subscript : Expr) (pos : Position)
  | array (elems : List Expr) (pos : Position)
  | tuple (elems : List Expr) (pos : Position)
  | struct (typeName : String) (fields : List (Label × Expr)) (pos : Position)
  | cast (operand : Expr) (type : TypeExpr) (pos : Position)
  deriving Inhabited

/-- The place of an expression; a call stands where its callee does. -/
def Expr.pos : Expr → Position
  | literal _ p => p
  | ident _ p => p
  | path _ p => p
  | binary _ _ _ p => p
  | unary _ _ p => p
  | call callee _ _ => callee.pos
  | methodCall _ _ _ p => p
  | member _ _ p => p
  | index _ _ p => p
  | array _ p => p
  | tuple _ p => p
  | struct _ _ p => p
  | cast _ _ p => p

inductive Pattern where
  | wildcard (pos : Position)
  | literal (value : Literal) (pos : Position)
  | binding (name : String) (mutable : Bool) (pos : Position)
  | tuple (elems : List Pattern) (pos : Position)
  | variant (path : List String) (elems : List Pattern) (pos : Position)
  deriving Inhabited

def Pattern.pos : Pattern → Position
  | wildcard p => p
  | literal _ p => p
  | binding _ _ p => p
  | tuple _ p => p
  | variant _ _ p => p

end UnitCheck
