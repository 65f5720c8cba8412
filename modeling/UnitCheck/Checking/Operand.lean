import UnitCheck.Checking.Annotate

/-!
# Operands

An expression inside another one is an operand: it can be read, or it can be taken over, which moves
a variable whose type is not copied. Reads and writes are recorded under the scope `here`, which
stands for the statement that the expression belongs to.
-/

namespace UnitCheck

structure Operand where
  pos : Position
  read : CheckM Typed
  take : CheckM Typed

def Typed.failed (code : Code) (pos : Position) (message : String) : Typed :=
  .broken [.mk' code pos message]

namespace Checking

/-- An operand that is not a name, for which it makes no difference how it is used. -/
def value (pos : Position) (check : CheckM Typed) : Operand := { pos, read := check, take := check }

/-- Takes operands over one after the other: their types, and all faults. -/
def takeAll : List Operand → CheckM (List Ty × List Diagnostic)
  | [] => return ([], [])
  | o :: rest => do
    let first ← o.take
    let (types, faults) ← takeAll rest
    return (first.type :: types, first.faults ++ faults)

/-- What cannot be said of a symbol that is no value. -/
def notValue (s : Symbol) (pos : Position) : Diagnostic :=
  .mk' .invalidType pos (s!"{s.kind.name} " ++ Text.quoted s.name ++ " cannot be used as a value")

def typeUnknown (s : Symbol) (pos : Position) : Diagnostic :=
  .mk' .undefinedType pos ("type of " ++ Text.quoted s.name ++ " is not known at this point")

/-- The type of a symbol as a value; the access is recorded. A generic symbol gets new variables. -/
def valueOf (here : Int) (id : Nat) (pos : Position) (take : Bool) : CheckM Typed := do
  let s ← useSymbol id
  if !s.kind.isValue then return .broken [notValue s pos]
  match s.type with
  | none => return .broken [typeUnknown s pos]
  | some type =>
    let kind : AccessKind := if take && !(← get).registry.isCopy type then .move else .read
    match ← access s kind here pos with
    | [] => return { type := ← onRegistry (Registry.instantiate type s.generics) }
    | faults => return .broken faults

def ident (here : Int) (name : String) (pos : Position) (take : Bool) : CheckM Typed := do
  match ← lookup name pos with
  | .error d => return .broken [d]
  | .ok id => valueOf here id pos take

def pathValue (here : Int) (path : List String) (pos : Position) : CheckM Typed := do
  match ← resolvePath path pos with
  | .error d => return .broken [d]
  | .ok id => valueOf here id pos false

/-! ## Places

A place is a variable or a part of one, which can be assigned to or borrowed. Finding it records no
access to the variable.
-/

structure Placed where
  root : Symbol
  type : Ty

def rootPlace (name : String) (pos : Position) (write : Bool) :
    CheckM (Except (List Diagnostic) Placed) := do
  match ← lookup name pos with
  | .error d => return .error [d]
  | .ok id =>
    let s ← useSymbol id
    if write && s.kind != .letVar && s.kind != .parameter then
      return .error
        [.mk' .invalidType pos (s!"cannot assign to {s.kind.name} " ++ Text.quoted s.name)]
    if !s.kind.isValue then return .error [notValue s pos]
    match s.type with
    | none => return .error [typeUnknown s pos]
    | some type => return .ok { root := s, type }

def partPlace (p : Placed) (part : Ty → CheckM Typed) :
    CheckM (Except (List Diagnostic) Placed) := do
  let t ← part p.type
  match t.faults with
  | [] => return .ok { p with type := t.type }
  | faults => return .error faults

end Checking

end UnitCheck
