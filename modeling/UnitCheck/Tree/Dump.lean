import UnitCheck.Number.Real
import UnitCheck.Text.Quoted
import UnitCheck.Tree.Item

/-!
# Tree dumps

A tree as text: a line for each node, indented by two blanks a level. A part of a tree gives a list
of lines, and only a whole dump is one text.
-/

namespace UnitCheck

namespace Dump

def line (depth : Nat) (text : String) : List String :=
  [String.ofList (List.replicate (2 * depth) ' ') ++ text ++ "\n"]

def visibility (isPublic : Bool) : String := if isPublic then "pub" else "private"

def literal (depth : Nat) : Literal → List String
  | .int n => line depth s!"IntLit {n}"
  | .float x => line depth ("FloatLit " ++ Number.realText x)
  | .bool b => line depth s!"BoolLit {b}"
  | .char c => line depth ("CharLit " ++ Text.quotedChar c)
  | .string s => line depth ("StringLit " ++ Text.quoted s)
  | .unit => line depth "UnitLit"

mutual

def expr (depth : Nat) : Expr → List String
  | .literal l _ => literal depth l
  | .ident name _ => line depth s!"Ident {name}"
  | .path segments _ => line depth ("PathExpr " ++ Text.dotted segments)
  | .binary op l r _ =>
    line depth ("BinaryExpr op=" ++ op.spelling) ++ expr (depth + 1) l ++ expr (depth + 1) r
  | .unary op x _ => line depth ("UnaryExpr op=" ++ op.spelling) ++ expr (depth + 1) x
  | .call callee args _ =>
    line depth "CallExpr" ++ line (depth + 1) "Callee:" ++ expr (depth + 2) callee ++
      (match args with
      | [] => []
      | _ => line (depth + 1) "Args:" ++ exprs (depth + 2) args)
  | .methodCall receiver name args _ =>
    line depth s!"MethodCallExpr name={name}" ++ expr (depth + 1) receiver ++ exprs (depth + 1) args
  | .member x name _ => line depth s!"MemberExpr name={name}" ++ expr (depth + 1) x
  | .index x i _ => line depth "IndexExpr" ++ expr (depth + 1) x ++ expr (depth + 1) i
  | .array elems _ => line depth s!"ArrayLit len={elems.length}" ++ exprs (depth + 1) elems
  | .tuple elems _ => line depth s!"TupleLit len={elems.length}" ++ exprs (depth + 1) elems
  | .struct name fields _ => line depth s!"StructLit type={name}" ++ fieldInits (depth + 1) fields
  | .cast x type _ => line depth ("CastExpr as=" ++ type.text) ++ expr (depth + 1) x

def exprs (depth : Nat) : List Expr → List String
  | [] => []
  | e :: rest => expr depth e ++ exprs depth rest

def fieldInits (depth : Nat) : List (Label × Expr) → List String
  | [] => []
  | (label, value) :: rest =>
    line depth s!"Field {label.text}:" ++ expr (depth + 1) value ++ fieldInits depth rest

end

mutual

def pattern (depth : Nat) : Pattern → List String
  | .wildcard _ => line depth "WildcardPattern"
  | .literal l _ => line depth "LiteralPattern" ++ literal (depth + 1) l
  | .binding name _ _ => line depth s!"BindingPattern name={name}"
  | .tuple elems _ => line depth "TuplePattern" ++ patterns (depth + 1) elems
  | .variant path elems _ =>
    line depth ("VariantPattern " ++ Text.dotted path) ++ patterns (depth + 1) elems

def patterns (depth : Nat) : List Pattern → List String
  | [] => []
  | p :: rest => pattern depth p ++ patterns depth rest

end

def optExpr (depth : Nat) : Option Expr → List String
  | none => []
  | some e => expr depth e

def param (depth : Nat) (p : Param) : List String :=
  line depth ("Param" ++ (if p.mutable then " mut" else "") ++ " name=" ++ p.label.text ++
    " type=" ++ TypeExpr.textOrUnit p.type)

def field (depth : Nat) (f : FieldDecl) : List String :=
  line depth (s!"Field {visibility f.isPublic} name={f.label.text} type=" ++ f.type.text)

def variant (depth : Nat) (v : VariantDecl) : List String :=
  line depth (s!"Variant name={v.label.text}" ++ (match v.payload with
    | some t => " payload=" ++ t.text
    | none => ""))

/-- The first line of a declaration that shows its visibility and name. -/
def headLine (depth : Nat) (what : String) (head : DeclHead) : List String :=
  line depth s!"{what} {visibility head.isPublic} name={head.label.text}"

def functionLine (depth : Nat) (f : FunctionHead) : List String :=
  line depth ("FuncDecl" ++ (if f.head.isPublic then " pub" else "") ++ " name=" ++
    f.head.label.text ++
    (match f.typeParams with
    | [] => ""
    | ps => " generics=<" ++ ", ".intercalate (ps.map (·.text)) ++ ">") ++
    " result=" ++ TypeExpr.textOrUnit f.result)

mutual

def item (depth : Nat) : Item → List String
  | .bad _ message => line depth ("BadNode " ++ Text.quoted message)
  | .letVar d =>
    line depth ("VarDecl" ++ (if d.mutable then " mut" else "") ++ " name=" ++ d.label.text ++
      (match d.type with
      | some t => " type=" ++ t.text
      | none => "")) ++ optExpr (depth + 1) d.value
  | .constant d =>
    line depth (s!"ConstDecl name={d.head.label.text} type=" ++ TypeExpr.textOrUnit d.type) ++
      optExpr (depth + 1) d.value
  | .function f => function depth f
  | .structType d =>
    headLine depth "StructDecl" d.head ++ d.fields.flatMap (field (depth + 1))
  | .classType d methods =>
    headLine depth "ClassDecl" d.head ++ d.fields.flatMap (field (depth + 1)) ++
      functions (depth + 1) methods
  | .enumType d =>
    headLine depth "EnumDecl" d.head ++ d.variants.flatMap (variant (depth + 1))
  | .traitType d methods => headLine depth "TraitDecl" d ++ functions (depth + 1) methods
  | .implementation d methods =>
    line depth ("ImplDecl" ++ (match d.trait with
      | some path => " trait=" ++ Text.dotted path
      | none => "") ++ " target=" ++ d.target.text) ++ functions (depth + 1) methods
  | .moduleBlock d body => headLine depth "ModuleDecl" d ++ items (depth + 1) body
  | .use d =>
    line depth ("UseDecl path=" ++ Text.dotted d.path ++ " alias=" ++ d.rename.getD "<default>")
  | .expression e => line depth "ExprStmt" ++ expr (depth + 1) e
  | .returnWith _ value => line depth "ReturnStmt" ++ optExpr (depth + 1) value
  | .ifElse _ cond thenBody elseBody =>
    line depth "IfStmt" ++ line (depth + 1) "Cond:" ++ expr (depth + 2) cond ++
      line (depth + 1) "Then:" ++ items (depth + 2) thenBody ++ elseItems (depth + 1) elseBody
  | .whileLoop _ cond body =>
    line depth "WhileStmt" ++ line (depth + 1) "Cond:" ++ expr (depth + 2) cond ++
      line (depth + 1) "Body:" ++ items (depth + 2) body
  | .forEach _ var iter body =>
    line depth s!"ForStmt var={var.text}" ++ line (depth + 1) "Iter:" ++ expr (depth + 2) iter ++
      line (depth + 1) "Body:" ++ items (depth + 2) body
  | .loop _ body => line depth "LoopStmt" ++ line (depth + 1) "Body:" ++ items (depth + 2) body
  | .breakLoop _ => line depth "BreakStmt"
  | .continueLoop _ => line depth "ContinueStmt"
  | .matchOn _ scrutinee cases =>
    line depth "MatchStmt" ++ expr (depth + 1) scrutinee ++ arms (depth + 1) cases
  | .block _ body => line depth "BlockStmt" ++ items (depth + 1) body

def items (depth : Nat) : List Item → List String
  | [] => []
  | i :: rest => item depth i ++ items depth rest

def elseItems (depth : Nat) : Option (List Item) → List String
  | none => []
  | some body => line depth "Else:" ++ items (depth + 1) body

def function (depth : Nat) : Function → List String
  | .mk head body =>
    functionLine depth head ++ head.params.flatMap (param (depth + 1)) ++
      functionBody (depth + 1) body

/-- The body of a function; one without items is not shown. -/
def functionBody (depth : Nat) : Option (List Item) → List String
  | none => []
  | some body =>
    match body with
    | [] => []
    | i :: rest => line depth "Body:" ++ item (depth + 1) i ++ items (depth + 1) rest

def functions (depth : Nat) : List Function → List String
  | [] => []
  | f :: rest => function depth f ++ functions depth rest

def arm (depth : Nat) : Arm → List String
  | .mk p guard body =>
    line depth "Arm" ++ pattern (depth + 1) p ++
      (match guard with
      | some g => line (depth + 1) "Guard:" ++ expr (depth + 2) g
      | none => []) ++
      line (depth + 1) "Body:" ++ items (depth + 2) body

def arms (depth : Nat) : List Arm → List String
  | [] => []
  | a :: rest => arm depth a ++ arms depth rest

end

end Dump

def dumpUnit (items : List Item) : String := String.join (Dump.items 0 items)

def dumpTypeExpr (a : TypeExpr) : String := String.join (Dump.line 0 ("Type " ++ a.text))

end UnitCheck
