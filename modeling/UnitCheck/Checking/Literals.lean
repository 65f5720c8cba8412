import UnitCheck.Checking.Operand

/-!
# Literals and casts
-/

namespace UnitCheck.Checking

def literal : Literal → Ty
  | .int _ => .int
  | .float _ => .float
  | .bool _ => .bool
  | .char _ => .char
  | .string _ => .string
  | .unit => .unit

def tupleLiteral (elems : List Operand) : CheckM Typed := do
  let (types, faults) ← takeAll elems
  match faults with
  | [] => return { type := ← register (.tuple types) }
  | faults => return .broken faults

/-- Checks the elements of an array after the first against its type. `number` is that of the first
of them. -/
def checkElems (first : Ty) : (number : Nat) → List Operand → CheckM (List Diagnostic)
  | _, [] => return []
  | number, e :: rest => do
    let t ← e.take
    let faults ← match t.faults with
      | [] => do
        if (← expect first t.type .unknown "").isEmpty then pure []
        else
          let wanted ← resolve first
          let found ← resolve t.type
          pure [Diagnostic.mk' .typeMismatch e.pos
            s!"array element {number}: expected {wanted.text}, found {found.text}"]
      | faults => pure faults
    let others ← checkElems first (number + 1) rest
    return faults ++ others

def arrayLiteral (elems : List Operand) : CheckM Typed := do
  match elems with
  | [] =>
    let elem ← fresh
    return { type := ← register (.array elem (some 0)) }
  | e :: rest =>
    let t ← e.take
    let first : Ty := if t.faults.isEmpty then t.type else .invalid
    let others ← checkElems first 1 rest
    match t.faults ++ others with
    | [] =>
      let elem ← resolve first
      return { type := ← register (.array elem (some elems.length)) }
    | faults => return .broken faults

/-! ## Structures -/

/-- The fields among the members of a symbol, in alphabetical order. -/
def fieldsOf (t : Table) (s : Symbol) : List Symbol :=
  (t.memberNames s).filterMap fun name =>
    match t.member? s name with
    | some id => if (t.symbol id).kind = .field then some (t.symbol id) else none
    | none => none

/-- Checks the values given to fields. `done` holds the fields that have their value. -/
def checkInits (s : Symbol) (types : List (String × Ty)) :
    (done : List String) → List (Label × Operand) → CheckM (List String × List Diagnostic)
  | done, [] => return (done, [])
  | done, (label, value) :: rest => do
    let t ← value.take
    let (done, faults) ← match t.faults, types.lookup label.text with
      | [], none =>
        pure (done, [Diagnostic.mk' .notFound label.pos
          (s!"{s.kind.name} " ++ Text.quoted s.name ++ " has no field " ++ Text.quoted label.text)])
      | [], some type =>
        if done.contains label.text then
          pure (done, [Diagnostic.mk' .alreadyDeclared label.pos
            ("field " ++ Text.quoted label.text ++ " initialized twice")])
        else
          let faults ← expect type t.type value.pos ("field " ++ Text.quoted label.text)
          pure (label.text :: done, faults)
      | faults, _ => pure (done, faults)
    let (done, others) ← checkInits s types done rest
    return (done, faults ++ others)

/-- A literal of a structure or class: every field has to be given once. -/
def structFields (s : Symbol) (type : Ty) (inits : List (Label × Operand)) (pos : Position) :
    CheckM Typed := do
  let declared := fieldsOf (← get).table s
  let shape := type :: declared.map fun f => f.type.getD .invalid
  let shape ← onRegistry (Registry.instantiateAll shape s.generics)
  let types := (declared.map (·.name)).zip shape.tail
  let (done, faults) ← checkInits s types [] inits
  let missing := declared.filter fun f => !done.contains f.name
  match faults, missing with
  | [], [] => return { type := ← resolve (shape.headD .invalid) }
  | [], missing =>
    return .broken (missing.map fun f =>
      .mk' .invalidType pos ("missing field " ++ Text.quoted f.name ++ s!" in {s.name} literal"))
  | faults, _ => return .broken faults

def structLiteral (name : String) (inits : List (Label × Operand)) (pos : Position) :
    CheckM Typed := do
  match ← lookup name pos with
  | .error d =>
    let (_, faults) ← takeAll (inits.map (·.2))
    return .broken ({ d with code := .typeNotFound } :: faults)
  | .ok id =>
    let s ← useSymbol id
    if s.kind != .structType && s.kind != .classType then
      return .failed .invalidType pos
        (s!"{s.kind.name} " ++ Text.quoted s.name ++ " is not a structure")
    match s.type with
    | none =>
      return .failed .undefinedType pos ("type " ++ Text.quoted s.name ++ " is not defined yet")
    | some type => structFields s type inits pos

/-! ## Casts -/

/-- Whether values of a type can be converted to other such types. -/
def isCastable (t : Ty) : Bool := t.isNumeric || t == .char

def cast (operand : Operand) (type : TypeExpr) (pos : Position) : CheckM Typed := do
  let x ← operand.read
  let dst ← convertTyped type
  match x.faults ++ dst.faults with
  | [] =>
    let src ← resolve x.type
    if src.isInvalid || (← get).registry.identical dst.type src ||
        (isCastable src && isCastable dst.type) then
      return { type := dst.type }
    return .failed .typeMismatch pos s!"cannot cast {src.text} to {dst.type.text}"
  | faults => return .broken faults

end UnitCheck.Checking
