import UnitCheck.Checking.Literals

/-!
# Patterns

A pattern is matched against a type and declares the names that it binds in the current scope.
-/

namespace UnitCheck.Checking

/-- The types of the elements of a type that is taken apart into `n` of them. -/
def tupleShape (t : Ty) (n : Nat) : CheckM (Except Diagnostic (List Ty)) := do
  let t ← resolve t
  let mismatch : Diagnostic := .mk' .typeMismatch .unknown
    s!"mismatched types in pattern: expected {t.text}, found a {n}-tuple"
  match t with
  | .tuple elems => return if elems.length = n then .ok elems else .error mismatch
  | .var v =>
    if v.rigid then return .error mismatch
    let elems ← (List.replicate n ()).mapM fun _ => fresh
    let wanted ← register (.tuple elems)
    match ← unify t wanted with
    | .ok _ => return .ok elems
    | .error fault => return .error (fault.diagnostic .unknown)
  | .basic .invalid => return .ok (List.replicate n .invalid)
  | _ => return .error mismatch

/-- The types of what a variant holds, when a pattern has `n` parts for it. -/
def payloadShape (s : Symbol) (payload : Option Ty) (n : Nat) (pos : Position) :
    CheckM (Except (List Diagnostic) (List Ty)) := do
  let fault (message : String) : Except (List Diagnostic) (List Ty) :=
    .error [.mk' .invalidType pos ("variant " ++ Text.quoted s.name ++ message)]
  match payload, n with
  | none, 0 => return .ok []
  | none, _ => return fault " has no payload"
  | some payload, 0 => return fault s!" carries a {payload.text} payload"
  | some payload, 1 => return .ok [payload]
  | some payload, n =>
    match ← tupleShape payload n with
    | .ok elems => return .ok elems
    | .error _ => return fault s!" carries a {payload.text} payload, not {n} fields"

/-- Checks a variant against the type `t`, and finds the types of its `n` parts. -/
def variantShape (path : List String) (n : Nat) (pos : Position) (t : Ty) :
    CheckM (Except (List Diagnostic) (List Ty)) := do
  match ← resolvePath path pos with
  | .error d => return .error [d]
  | .ok id =>
    let s ← useSymbol id
    if s.kind != .variant then
      return .error
        [.mk' .invalidType pos (s!"{s.kind.name} " ++ Text.quoted s.name ++ " is not a variant")]
    match s.type with
    | none =>
      return .error
        [.mk' .undefinedType pos ("type of variant " ++ Text.quoted s.name ++ " is not known")]
    | some type =>
      let (enum, payload) := match type with
        | .func [payload] enum => (enum, some payload)
        | .func _ enum => (enum, none)
        | enum => (enum, none)
      match ← expect t enum pos "pattern" with
      | [] => payloadShape s payload n pos
      | faults => return .error faults

mutual

def pattern : Pattern → Ty → CheckM (List Diagnostic)
  | .wildcard _, _ => return []
  | .literal v pos, t => expect t (literal v) pos "pattern"
  | .binding name mutable pos, t => do
    let t ← resolve t
    declareLocal name .letVar pos t mutable true
  | .tuple elems pos, t => do
    match ← tupleShape t elems.length with
    | .ok types => patterns elems types
    | .error d => return [d.placed pos]
  | .variant path elems pos, t => do
    match ← variantShape path elems.length pos t with
    | .ok types => patterns elems types
    | .error faults =>
      let others ← patterns elems []
      return faults ++ others

/-- Matches patterns against types; where there is none, against the invalid one. -/
def patterns : List Pattern → List Ty → CheckM (List Diagnostic)
  | [], _ => return []
  | p :: ps, types => do
    let faults ← pattern p (types.headD .invalid)
    let others ← patterns ps types.tail
    return faults ++ others

end

end UnitCheck.Checking
