import UnitCheck.Checking.Operand
import UnitCheck.Number.Integer

/-!
# Calls, members and indices

Methods and fields of named types are not looked up: their types are left open.
-/

namespace UnitCheck.Checking

/-- The names of a chain of members that starts with a name. -/
def memberPath : Expr → Option (List String)
  | .ident name _ => some [name]
  | .member target name _ => (memberPath target).map (· ++ [name])
  | _ => none

/-- How a callee is called in messages. -/
def calleeName : Expr → String
  | .ident name _ => Text.quoted name
  | .path segments _ => Text.quoted (Text.dotted segments)
  | .member target name _ =>
    match memberPath target with
    | some path => Text.quoted (Text.dotted (path ++ [name]))
    | none => "expression"
  | _ => "expression"

/-! ## Calls -/

/-- Takes arguments over and checks those that have a parameter against it. `number` is that of the
first argument. -/
def checkArgs (name : String) : (number : Nat) → List Ty → List Operand → CheckM (List Diagnostic)
  | _, _, [] => return []
  | number, params, a :: rest => do
    let t ← a.take
    let faults ← match t.faults, params with
      | [], param :: _ => expect param t.type a.pos s!"argument {number} of {name}"
      | faults, _ => pure faults
    let others ← checkArgs name (number + 1) params.tail rest
    return faults ++ others

/-- A call of something whose type is not known yet. -/
def callOpen (callee : Ty) (args : List Operand) (pos : Position) : CheckM Typed := do
  let (params, faults) ← takeAll args
  let result ← fresh
  let wanted ← register (.func params result)
  match ← unify callee wanted with
  | .ok _ => return { type := result, faults }
  | .error fault => return { type := result, faults := faults ++ [fault.diagnostic pos] }

def call (callee : Operand) (name : String) (args : List Operand) (pos : Position) :
    CheckM Typed := do
  let c ← callee.read
  if !c.faults.isEmpty then
    let (_, faults) ← takeAll args
    return .broken (c.faults ++ faults)
  let type ← resolve c.type
  let notCallable : Typed := .failed .typeMismatch pos s!"cannot call {name} of type {type.text}"
  match type with
  | .func params result =>
    let count := if args.length = params.length then [] else
      [Diagnostic.mk' .typeMismatch pos
        s!"{name} expects {params.length} arguments, got {args.length}"]
    let faults ← checkArgs name 1 params args
    match count ++ faults with
    | [] => return { type := ← resolve result }
    | faults => return .broken faults
  | .var v => if v.rigid then return notCallable else callOpen type args pos
  | .basic .invalid => return { type := .invalid }
  | _ => return notCallable

/-! ## Members -/

/-- Whether values of a type may have methods. -/
def hasMembers (t : Ty) : CheckM Bool := do
  match ← behindRefs t with
  | .named .. => return true
  | .var _ => return true
  | t => return t.isInvalid

def methodCall (receiver : Operand) (name : String) (args : List Operand) (pos : Position) :
    CheckM Typed := do
  let r ← receiver.read
  let (_, faults) ← takeAll args
  match r.faults ++ faults with
  | [] =>
    if ← hasMembers r.type then return { type := ← fresh }
    let type ← resolve r.type
    return .failed .invalidType pos ("no method " ++ Text.quoted name ++ s!" on type {type.text}")
  | faults => return .broken faults

/-- The element of a tuple that a member name stands for. -/
def tupleElem? (elems : List Ty) (name : String) : Option Ty := do
  let i ← Number.readDecimal? name.toList
  if i < 0 then none else elems[i.toNat]?

/-- The type of a member of a value. -/
def memberOf (t : Ty) (name : String) (pos : Position) : CheckM Typed := do
  let t ← behindRefs t
  let failed : Typed :=
    .failed .invalidType pos (s!"type {t.text} has no field " ++ Text.quoted name)
  match t with
  | .tuple elems =>
    match tupleElem? elems name with
    | some elem => return { type := elem }
    | none => return .failed .invalidType pos s!"tuple {t.text} has no field {name}"
  | .named .. => return { type := ← fresh }
  | .var v => if v.rigid then return failed else return { type := ← fresh }
  | .basic .invalid => return { type := .invalid }
  | _ => return failed

/-- A member of a value. A chain of names that starts with a container is a qualified name. -/
def member (here : Int) (path : Option (List String)) (target : Operand) (name : String)
    (pos : Position) : CheckM Typed := do
  match path with
  | some (first :: rest) =>
    match (← get).table.lookup first with
    | .ok id =>
      if (← symbol id).kind.isContainer then
        onTable (modify (·.markUsed id))
        return ← pathValue here (first :: rest) pos
    | .error _ => pure ()
  | _ => pure ()
  let t ← target.read
  match t.faults with
  | [] => memberOf t.type name pos
  | faults => return .broken faults

/-! ## Indices -/

/-- The type of the elements of a value under an index. -/
def indexed (t : Ty) (subscript : Operand) (pos : Position) : CheckM Typed := do
  let i ← subscript.read
  if !i.faults.isEmpty then return .broken i.faults
  match ← expect .int i.type subscript.pos "array index" with
  | [] =>
    let notIndexable : CheckM Typed := do
      let t ← resolve t
      return .failed .typeMismatch pos s!"cannot index into a value of type {t.text}"
    match ← behindRefs t with
    | .array elem _ => return { type := elem }
    | .var v =>
      if v.rigid then notIndexable
      else
        let elem ← fresh
        let wanted ← register (.array elem none)
        match ← unify (.var v) wanted with
        | .ok _ => return { type := elem }
        | .error fault => return .broken [fault.diagnostic pos]
    | .basic .invalid => return { type := .invalid }
    | _ => notIndexable
  | faults => return .broken faults

def index (target subscript : Operand) (pos : Position) : CheckM Typed := do
  let t ← target.read
  match t.faults with
  | [] => indexed t.type subscript pos
  | faults =>
    let i ← subscript.read
    return .broken (faults ++ i.faults)

end UnitCheck.Checking
