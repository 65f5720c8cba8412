import UnitCheck.Checking.Literals
import UnitCheck.Checking.Members
import UnitCheck.Checking.Operators

/-!
# Expressions
-/

namespace UnitCheck.Checking

def isPlace : Expr → Bool
  | .ident .. => true
  | .index target _ _ => isPlace target
  | .member target _ _ => isPlace target
  | _ => false

mutual

def operand (here : Int) : Expr → Operand
  | .literal v pos => value pos (return { type := literal v })
  | .ident name pos =>
    { pos, read := ident here name pos false, take := ident here name pos true }
  | .path segments pos => value pos (pathValue here segments pos)
  | .binary .assign (.unary .deref x p) r pos =>
    value pos (assignThrough here (operand here x) (operand here r) p)
  | .binary .assign l r pos =>
    let isPart := match l with
      | .ident .. => false
      | _ => true
    value pos (assignPlace here (place here true l) isPart l.pos (operand here r))
  | .binary op l r pos => value pos (binary op (operand here l) (operand here r) pos)
  | .unary .amp x pos =>
    value pos (borrowOf false here (place here false x) (isPlace x) (operand here x) pos)
  | .unary .ampMut x pos =>
    value pos (borrowOf true here (place here false x) (isPlace x) (operand here x) pos)
  | .unary op x pos => value pos (unary op (operand here x) pos)
  | .call callee args pos =>
    value callee.pos (call (operand here callee) (calleeName callee) (operands here args) pos)
  | .methodCall receiver name args pos =>
    value pos (methodCall (operand here receiver) name (operands here args) pos)
  | .member target name pos =>
    value pos (member here ((memberPath target).map (· ++ [name])) (operand here target) name pos)
  | .index target subscript pos =>
    value pos (index (operand here target) (operand here subscript) pos)
  | .array elems pos => value pos (arrayLiteral (operands here elems))
  | .tuple elems pos => value pos (tupleLiteral (operands here elems))
  | .struct name inits pos => value pos (structLiteral name (initOperands here inits) pos)
  | .cast x type pos => value pos (cast (operand here x) type pos)

def operands (here : Int) : List Expr → List Operand
  | [] => []
  | e :: rest => operand here e :: operands here rest

def initOperands (here : Int) : List (Label × Expr) → List (Label × Operand)
  | [] => []
  | (label, e) :: rest => (label, operand here e) :: initOperands here rest

def place (here : Int) (write : Bool) : Expr → CheckM (Except (List Diagnostic) Placed)
  | .ident name pos => rootPlace name pos write
  | .index target subscript pos => do
    match ← place here write target with
    | .error faults => return .error faults
    | .ok p => partPlace p fun t => indexed t (operand here subscript) pos
  | .member target name pos => do
    match ← place here write target with
    | .error faults => return .error faults
    | .ok p => partPlace p fun t => memberOf t name pos
  | e => return .error [.mk' .invalidType e.pos "expression is not assignable"]

end

/-- The value of a binding. A reference to a variable lives as long as the scope of the binding. -/
def bindingValue (here : Int) (e : Expr) : CheckM Typed := do
  let scope := (← get).table.current
  match e with
  | .unary .amp x pos =>
    borrowOf false scope (place here false x) (isPlace x) (operand here x) pos
  | .unary .ampMut x pos =>
    borrowOf true scope (place here false x) (isPlace x) (operand here x) pos
  | e => (operand here e).take

/-- Checks the expression of a statement. What it reads and writes is released at its end. -/
def evaluate (check : (here : Int) → CheckM Typed) : CheckM Typed := do
  let s ← get
  let (here, ledger) := s.ledger.temporary
  set { s with ledger }
  let t ← check here
  onLedger (·.release here)
  return t

end UnitCheck.Checking
