/-!
# Kinds of symbols and scopes

Kinds are also known by number; a number outside a list is no kind and is shown as a number.
-/

namespace UnitCheck

inductive SymbolKind where
  | letVar | parameter | function | structType | classType | enumType | variant | field | traitType
  | implementation | moduleBlock | constant | generic
  deriving Repr, DecidableEq, Inhabited

namespace SymbolKind

def all : List SymbolKind :=
  [letVar, parameter, function, structType, classType, enumType, variant, field, traitType,
    implementation, moduleBlock, constant, generic]

def name : SymbolKind → String
  | letVar => "variable"
  | parameter => "parameter"
  | function => "function"
  | structType => "structure"
  | classType => "class"
  | enumType => "enumeration"
  | variant => "variant"
  | field => "field"
  | traitType => "trait"
  | implementation => "implementation"
  | moduleBlock => "module"
  | constant => "constant"
  | generic => "generic"

def ofName? (name : String) : Option SymbolKind := all.find? (·.name == name)

def nameOfNumber (n : Int) : String :=
  match if n < 0 then none else all[n.toNat]? with
  | some k => k.name
  | none => s!"Kind({n})"

/-- Whether a qualified path may go on through a symbol of this kind. -/
def isContainer : SymbolKind → Bool
  | moduleBlock | structType | classType | traitType | enumType => true
  | _ => false

/-- Whether a symbol of this kind is a value when the program runs. -/
def isValue : SymbolKind → Bool
  | letVar | parameter | function | constant | variant => true
  | _ => false

end SymbolKind

inductive ScopeKind where
  | global | moduleBody | functionBody | block | loop | traitBody | typeBody | implBody
  deriving Repr, DecidableEq, Inhabited

namespace ScopeKind

def all : List ScopeKind :=
  [global, moduleBody, functionBody, block, loop, traitBody, typeBody, implBody]

def name : ScopeKind → String
  | global => "global"
  | moduleBody => "module"
  | functionBody => "function"
  | block => "block"
  | loop => "loop"
  | traitBody => "trait"
  | typeBody => "structure"
  | implBody => "implementation"

def ofName? (name : String) : Option ScopeKind := all.find? (·.name == name)

def nameOfNumber (n : Int) : String :=
  match if n < 0 then none else all[n.toNat]? with
  | some k => k.name
  | none => s!"ScopeKind({n})"

end ScopeKind

end UnitCheck
