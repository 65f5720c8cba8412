import UnitCheck.Tree.TypeExpr
import UnitCheck.Typing.Unify

/-!
# From annotations to types

The names of the basic types stand for those; what other names stand for is for the caller to say.
The first fault ends a conversion.
-/

namespace UnitCheck

namespace TypeExpr

section

variable {m : Type → Type} [Monad m]

/-- How a conversion registers types and finds out what names stand for. -/
structure Converter (m : Type → Type) where
  register : Ty → m Ty
  named : (path : List String) → (args : List Ty) → Position → ExceptT Diagnostic m Ty

variable (c : Converter m)

/-- What a name with converted arguments stands for. -/
def convertName (path : List String) (args : List Ty) (pos : Position) :
    ExceptT Diagnostic m Ty := do
  match path with
  | [name] =>
    match Basic.ofName? name with
    | some b =>
      if args.isEmpty then return .basic b
      else
        throw (.mk' .invalidTypeParameter pos s!"builtin type {b.text} takes no type arguments")
    | none => c.named path args pos
  | path => c.named path args pos

mutual

def convert : TypeExpr → ExceptT Diagnostic m Ty
  | .named path args pos => do
    if path.isEmpty then throw (.mk' .invalidType pos "empty type name")
    let args ← convertAll args
    convertName c path args pos
  | .array elem length pos => do
    let elem ← convert elem
    match length with
    | none => c.register (.array elem none)
    | some n =>
      if n < 0 then throw (.mk' .invalidType pos s!"negative array length {n}")
      else c.register (.array elem (some n))
  | .tuple elems _ => do c.register (.tuple (← convertAll elems))
  | .func params result _ => do
    let params ← convertAll params
    let result ← convertResult result
    c.register (.func params result)
  | .ref inner mutable lifetime _ => do c.register (.ref (← convert inner) mutable lifetime)

def convertAll : List TypeExpr → ExceptT Diagnostic m (List Ty)
  | [] => return []
  | t :: ts => do
    let first ← convert t
    let others ← convertAll ts
    return first :: others

/-- A result that is not given is the unit type. -/
def convertResult : Option TypeExpr → ExceptT Diagnostic m Ty
  | none => return .unit
  | some t => convert t

end

end

end TypeExpr

namespace Registry

/-- Converts in a registry alone: an unknown name is a named type of its own. -/
def converter : TypeExpr.Converter RegistryM where
  register := register
  named := fun path args _ => register (.named (Text.dotted path) args)

def convert (t : TypeExpr) : ExceptT Diagnostic RegistryM Ty := t.convert converter

end Registry

end UnitCheck
