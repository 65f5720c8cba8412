import UnitCheck.Tree.Expr

/-!
# Items

A unit is a list of items: declarations, statements, and marks for what could not be read. Bodies of
functions, modules and compound statements are lists of items again.
-/

namespace UnitCheck

/-- The start of a declaration: its keyword's place, its name and its visibility. -/
structure DeclHead where
  pos : Position
  label : Label
  isPublic : Bool
  deriving Repr, Inhabited

structure LetDecl where
  pos : Position
  label : Label
  type : Option TypeExpr
  value : Option Expr
  mutable : Bool
  deriving Inhabited

structure ConstDecl where
  head : DeclHead
  type : Option TypeExpr
  value : Option Expr
  deriving Inhabited

structure Param where
  label : Label
  type : Option TypeExpr
  mutable : Bool
  deriving Inhabited

structure FunctionHead where
  head : DeclHead
  typeParams : List Label
  params : List Param
  result : Option TypeExpr
  deriving Inhabited

structure FieldDecl where
  label : Label
  type : TypeExpr
  isPublic : Bool
  deriving Inhabited

structure StructDecl where
  head : DeclHead
  typeParams : List Label
  fields : List FieldDecl
  deriving Inhabited

structure ClassHead where
  head : DeclHead
  fields : List FieldDecl
  deriving Inhabited

structure VariantDecl where
  label : Label
  payload : Option TypeExpr
  isPublic : Bool
  deriving Inhabited

structure EnumDecl where
  head : DeclHead
  variants : List VariantDecl
  deriving Inhabited

structure ImplHead where
  pos : Position
  /-- The trait that is implemented; `none` for methods of the type's own. -/
  trait : Option (List String)
  target : TypeExpr
  deriving Inhabited

structure UseDecl where
  pos : Position
  path : List String
  /-- The name to import under; `none` for the last segment of the path. -/
  rename : Option String
  deriving Inhabited

mutual

/-- A function or method; one without a body is a requirement of a trait. -/
inductive Function where
  | mk (head : FunctionHead) (body : Option (List Item))

inductive Arm where
  | mk (pattern : Pattern) (guard : Option Expr) (body : List Item)

inductive Item where
  | bad (pos : Position) (message : String)
  | letVar (decl : LetDecl)
  | constant (decl : ConstDecl)
  | function (f : Function)
  | structType (decl : StructDecl)
  | classType (decl : ClassHead) (methods : List Function)
  | enumType (decl : EnumDecl)
  | traitType (decl : DeclHead) (methods : List Function)
  | implementation (decl : ImplHead) (methods : List Function)
  | moduleBlock (decl : DeclHead) (body : List Item)
  | use (decl : UseDecl)
  | expression (e : Expr)
  | returnWith (pos : Position) (value : Option Expr)
  | ifElse (pos : Position) (cond : Expr) (thenBody : List Item) (elseBody : Option (List Item))
  | whileLoop (pos : Position) (cond : Expr) (body : List Item)
  | forEach (pos : Position) (var : Label) (iter : Expr) (body : List Item)
  | loop (pos : Position) (body : List Item)
  | breakLoop (pos : Position)
  | continueLoop (pos : Position)
  | matchOn (pos : Position) (scrutinee : Expr) (arms : List Arm)
  | block (pos : Position) (body : List Item)

end

instance : Inhabited Item := ⟨.bad .unknown ""⟩

instance : Inhabited Function := ⟨.mk default none⟩

instance : Inhabited Arm := ⟨.mk default none []⟩

namespace Function

def head : Function → FunctionHead
  | mk h _ => h

def body : Function → Option (List Item)
  | mk _ b => b

end Function

namespace Arm

def pattern : Arm → Pattern
  | mk p _ _ => p

def guard : Arm → Option Expr
  | mk _ g _ => g

def body : Arm → List Item
  | mk _ _ b => b

end Arm

namespace Item

def pos : Item → Position
  | bad p _ => p
  | letVar d => d.pos
  | constant d => d.head.pos
  | function f => f.head.head.pos
  | structType d => d.head.pos
  | classType d _ => d.head.pos
  | enumType d => d.head.pos
  | traitType d _ => d.pos
  | implementation d _ => d.pos
  | moduleBlock d _ => d.pos
  | use d => d.pos
  | expression e => e.pos
  | returnWith p _ => p
  | ifElse p _ _ _ => p
  | whileLoop p _ _ => p
  | forEach p _ _ _ => p
  | loop p _ => p
  | breakLoop p => p
  | continueLoop p => p
  | matchOn p _ _ => p
  | block p _ => p

end Item

end UnitCheck
