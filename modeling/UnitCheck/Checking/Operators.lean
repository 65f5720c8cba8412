import UnitCheck.Checking.Operand

/-!
# Operators and assignment
-/

namespace UnitCheck.Checking

def operatorMismatch (op : Operator) (pos : Position) (l r : Ty) : Typed :=
  .failed .typeMismatch pos s!"operator {op.spelling} cannot be applied to {l.text} and {r.text}"

def widerNumeric (l r : Ty) : Ty := if l = .float ∨ r = .float then .float else .int

/-- Unifies operands of which one is not known yet; nothing when both are known or they differ. -/
def unifyFree (l r : Ty) : CheckM (Option Ty) := do
  if (← hasFree l) || (← hasFree r) then
    match ← unify l r with
    | .ok t => return some t
    | .error _ => return none
  else return none

def arithmetic (op : Operator) (pos : Position) (l r : Ty) : CheckM Typed := do
  if l.isNumeric && r.isNumeric then return { type := widerNumeric l r }
  if op == .plus && l == .string && r == .string then return { type := .string }
  match ← unifyFree l r with
  | some t => return { type := t }
  | none => return operatorMismatch op pos l r

def equality (op : Operator) (pos : Position) (l r : Ty) : CheckM Typed := do
  if ← compatible l r then return { type := .bool } else return operatorMismatch op pos l r

def ordering (op : Operator) (pos : Position) (l r : Ty) : CheckM Typed := do
  if (l.isNumeric && r.isNumeric) || (l == .char && r == .char) then return { type := .bool }
  match ← unifyFree l r with
  | some _ => return { type := .bool }
  | none => return operatorMismatch op pos l r

def logical (op : Operator) (left right : Position) (l r : Ty) : CheckM Typed := do
  let what := "operand of " ++ op.spelling
  let first ← expect .bool l left what
  let second ← expect .bool r right what
  match first ++ second with
  | [] => return { type := .bool }
  | faults => return .broken faults

def rangeOf (op : Operator) (pos : Position) (l r : Ty) : CheckM Typed := do
  if l.isNumeric && r.isNumeric then
    return { type := ← onRegistry (Registry.range (widerNumeric l r)) }
  if ← compatible l r then
    let elem ← resolve l
    return { type := ← onRegistry (Registry.range elem) }
  else return operatorMismatch op pos l r

def binary (op : Operator) (left right : Operand) (pos : Position) : CheckM Typed := do
  let l ← left.read
  let r ← right.read
  match l.faults ++ r.faults with
  | [] =>
    let lt ← resolve l.type
    let rt ← resolve r.type
    if lt.isInvalid || rt.isInvalid then return { type := .invalid }
    else if op.isArithmetic then arithmetic op pos lt rt
    else if op.isEquality then equality op pos lt rt
    else if op.isOrdering then ordering op pos lt rt
    else if op.isLogical then logical op left.pos right.pos lt rt
    else if op.isRange then rangeOf op pos lt rt
    else return .failed .internal pos s!"unknown binary operator {op.spelling}"
  | faults => return .broken faults

/-! ## Assignment

What the value reads is released before the target is written.
-/

/-- Takes over the value of an assignment. -/
def assignedValue (here : Int) (right : Operand) : CheckM Typed := do
  let v ← right.take
  onLedger (·.release here)
  return v

/-- The end of an assignment to a target of a known type. -/
def assigned (target : Ty) (v : Typed) (pos : Position) : CheckM Typed := do
  match v.faults with
  | [] => return { type := target, faults := ← expect target v.type pos "assignment" }
  | faults => return { type := target, faults }

def assignThrough (here : Int) (reference right : Operand) (pos : Position) : CheckM Typed := do
  let v ← assignedValue here right
  let r ← reference.read
  if !r.faults.isEmpty then return .broken (v.faults ++ r.faults)
  let resolved ← resolve r.type
  if r.type.isInvalid then return .broken v.faults
  match resolved with
  | .ref inner true _ => assigned inner v right.pos
  | .ref .. =>
    return .broken (v.faults ++ [.mk' .immutableWrite pos
      s!"cannot assign through shared reference {resolved.text}"])
  | _ =>
    return .broken (v.faults ++ [.mk' .typeMismatch pos
      s!"cannot dereference non-reference type {resolved.text}"])

/-- Assignment to a place. Writing to a part of a variable needs it initialized and mutable. -/
def assignPlace (here : Int) (place : CheckM (Except (List Diagnostic) Placed)) (isPart : Bool)
    (targetPos : Position) (right : Operand) : CheckM Typed := do
  let v ← assignedValue here right
  match ← place with
  | .error faults => return .broken (v.faults ++ faults)
  | .ok p =>
    match ← access p.root (if isPart then .borrowMutably else .write) here targetPos with
    | [] => assigned p.type v right.pos
    | faults => return .broken (v.faults ++ faults)

/-! ## Prefix operators -/

/-- A borrow of a place under a scope, or of a value that is no place. -/
def borrowOf (mutable : Bool) (scope : Int) (place : CheckM (Except (List Diagnostic) Placed))
    (isPlace : Bool) (operand : Operand) (pos : Position) : CheckM Typed := do
  match ← place with
  | .ok p =>
    match ← access p.root (if mutable then .borrowMutably else .borrow) scope pos with
    | [] => return { type := ← register (.ref p.type mutable none) }
    | faults => return .broken faults
  | .error faults =>
    if isPlace then return .broken faults
    let t ← operand.read
    match t.faults with
    | [] => return { type := ← register (.ref t.type mutable none) }
    | faults => return .broken faults

def negation (pos : Position) (t : Ty) : CheckM Typed := do
  if t.isNumeric || (← hasFree t) then return { type := t }
  else return .failed .typeMismatch pos s!"cannot negate a value of type {t.text}"

def logicalNot (operandPos : Position) (t : Ty) : CheckM Typed := do
  match ← expect .bool t operandPos "operand of !" with
  | [] => return { type := .bool }
  | faults => return .broken faults

def dereference (pos : Position) (t : Ty) : CheckM Typed := do
  let failed : Typed := .failed .typeMismatch pos s!"cannot dereference non-reference type {t.text}"
  match t with
  | .ref inner _ _ => return { type := inner }
  | .var v =>
    if v.rigid then return failed
    let inner ← fresh
    let reference ← register (.ref inner false none)
    match ← unify t reference with
    | .ok _ => return { type := inner }
    | .error fault => return .broken [fault.diagnostic pos]
  | _ => return failed

def unary (op : Operator) (operand : Operand) (pos : Position) : CheckM Typed := do
  let x ← operand.read
  if !x.faults.isEmpty then return .broken x.faults
  let t ← resolve x.type
  if t.isInvalid then return { type := .invalid }
  match op with
  | .minus => negation pos t
  | .bang => logicalNot operand.pos t
  | .deref => dereference pos t
  | op => return .failed .internal pos s!"unknown unary operator {op.spelling}"

end UnitCheck.Checking
