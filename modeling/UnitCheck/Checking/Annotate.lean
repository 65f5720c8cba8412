import UnitCheck.Checking.Store
import UnitCheck.Tree.Item
import UnitCheck.Typing.Convert

/-!
# Types of annotations and signatures

Names in annotations are resolved in the current scope.
-/

namespace UnitCheck.Checking

/-- What a structure, class or enumeration stands for with these arguments. -/
def nominalType (s : Symbol) (args : List Ty) (pos : Position) : CheckM (Except Diagnostic Ty) := do
  let label := s!"{s.kind.name} " ++ Text.quoted s.name
  match s.type with
  | none =>
    return .error (.mk' .undefinedType pos ("type " ++ Text.quoted s.name ++ " is not defined yet"))
  | some type =>
    if args.isEmpty && s.generics.isEmpty then return .ok type
    if args.length ≠ s.generics.length then
      return .error (.mk' .invalidTypeParameter pos
        (label ++ s!" expects {s.generics.length} type arguments, got {args.length}"))
    match type with
    | .named name _ => return .ok (← register (.named name args))
    | type => return .error (.mk' .internal pos (label ++ s!" has non-nominal type {type.text}"))

/-- What a named type with arguments stands for. -/
def namedType (path : List String) (args : List Ty) (pos : Position) :
    CheckM (Except Diagnostic Ty) := do
  match ← resolvePath path pos with
  | .error d => return .error (if d.code = .notFound then { d with code := .typeNotFound } else d)
  | .ok id =>
    let s ← useSymbol id
    match s.kind with
    | .generic =>
      if args.isEmpty then return .ok (s.type.getD .invalid)
      else
        return .error (.mk' .invalidTypeParameter pos
          ("type parameter " ++ Text.quoted s.name ++ " takes no type arguments"))
    | .structType | .classType | .enumType => nominalType s args pos
    | kind =>
      return .error
        (.mk' .invalidType pos (s!"{kind.name} " ++ Text.quoted s.name ++ " is not a type"))

def converter : TypeExpr.Converter CheckM where
  register := register
  named := fun path args pos => ExceptT.mk (namedType path args pos)

def convert (t : TypeExpr) : CheckM (Except Diagnostic Ty) := (t.convert converter).run

/-- The type of an annotation; one that cannot be converted is invalid. -/
def convertTyped (t : TypeExpr) : CheckM Typed := do
  match ← convert t with
  | .ok type => return { type }
  | .error d => return .broken [d]

def paramType (owner : String) (p : Param) : CheckM Typed := do
  match p.type with
  | some t => convertTyped t
  | none =>
    return .broken [.mk' .invalidType p.label.pos
      ("parameter " ++ Text.quoted p.label.text ++ " of " ++ Text.quoted owner ++
      " needs a type annotation")]

structure Signature where
  params : List Ty
  result : Ty
  deriving Inhabited

def Signature.type (s : Signature) : Ty := .func s.params s.result

/-- The signature of a function, whose type parameters are declared in the current scope. -/
def signature (f : FunctionHead) : CheckM (Signature × List Diagnostic) := do
  let params ← f.params.mapM (paramType f.head.label.text)
  let result ← match f.result with
    | none => pure { type := .unit }
    | some t => convertTyped t
  let signature : Signature := { params := params.map (·.type), result := result.type }
  discard (register signature.type)
  return (signature, params.flatMap (·.faults) ++ result.faults)

end UnitCheck.Checking
