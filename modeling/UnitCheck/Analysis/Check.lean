import UnitCheck.Analysis.Declare
import UnitCheck.Analysis.Imports
import UnitCheck.Analysis.Traits
import UnitCheck.Checking.Patterns
import UnitCheck.Checking.Variables

/-!
# Checking bodies

The third pass checks the values of variables, the bodies of functions and the statements of a unit.
An item of a unit or module comes with its plan. A declaration inside a body has none: all passes
are run over it alone, on the spot.
-/

namespace UnitCheck

/-- Where a statement stands. -/
structure Setting where
  /-- The result of the function around it. -/
  result : Option Ty := none
  /-- The names that come before those of types declared here. -/
  path : List String := []
  /-- Whether declarations other than variables and constants are allowed. -/
  declarations : Bool := true

namespace Analysis

open Checking

def leaveAt (pos : Position) : AnalysisM Unit := do
  match ← leave with
  | .ok _ => pure ()
  | .error fault => report [fault.diagnostic.placed pos]

/-- Runs something in a new scope. -/
def inScope (kind : ScopeKind) (pos : Position) (act : AnalysisM Unit) : AnalysisM Unit := do
  discard (onTable (Table.enter kind))
  act
  leaveAt pos

def firstPos (items : List Item) : Position := (items.head?.map (·.pos)).getD .unknown

def ledger : AnalysisM Ledger := return (← getThe Store).ledger

/-- The name of the function around the current scope. -/
def enclosingFunction : AnalysisM String := do
  let t := (← getThe Store).table
  match (t.nearest .functionBody []).bind (·.owner) with
  | some id => return (t.symbol id).name
  | none => return "<body>"

/-- Runs the earlier passes over a declaration inside a body. Types declared there are named after
the function and the scope around them, so that they differ from all others. -/
def planHere (s : Setting) (i : Item) : AnalysisM (Setting × Plan) := do
  if !s.declarations then
    report [.mk' .invalidScope i.pos "declaration not allowed here"]
    return (s, .none)
  let outer ← enclosingFunction
  let path := s.path ++ [s!"{outer}#{(← getThe Store).table.current}"]
  let sketch ← collectItem path i
  discard (resolveImports [] true)
  let plan ← declareItem i sketch
  return ({ s with path }, plan)

/-- The plan of an item, which is made on the spot if there is none yet. -/
def planned (s : Setting) (i : Item) : Option Plan → AnalysisM (Setting × Plan)
  | some plan => return (s, plan)
  | none => planHere s i

/-- Gives a variable of a unit its type, and marks it initialized once it has a value. -/
def settle (plan : Plan) (type : Ty) (initialized : Bool) : AnalysisM Unit := do
  match plan with
  | .value id =>
    let s ← symbol id
    report (← setType id type s.pos)
    if initialized then
      updateSymbol id fun s => { s with initialized := true }
      keep id s.name s.mutable true
  | _ => pure ()

/-- Declares `self` and the parameters of a function in the current scope. -/
def declareParams (self : Option Ty) (f : FunctionHead) (types : List Ty) : AnalysisM Unit := do
  match self with
  | some type => report (← declareLocal "self" .parameter f.head.label.pos type false true)
  | none => pure ()
  (f.params.zip types).forM fun (p, type) => do
    report (← declareLocal p.label.text .parameter p.label.pos type p.mutable true)

mutual

def checkItem (s : Setting) : Item → Option Plan → AnalysisM Unit
  | .bad .., _ => return ()
  | .letVar d, plan => do
    let type ← reported (← variableType d.label d.type d.value)
    match plan with
    | some plan => settle plan type d.value.isSome
    | none => report (← declareLocal d.label.text .letVar d.label.pos type d.mutable d.value.isSome)
  | .constant d, plan => do
    let label := d.head.label
    let type ← reported (← constantType label d.type d.value)
    match plan with
    | some plan => settle plan type true
    | none => report (← declareLocal label.text .constant label.pos type false true)
  | .function f, plan => do
    match ← planned s (.function f) plan with
    | (s, .function p) => checkFunction s none f (some p)
    | _ => pure ()
  | .structType d, plan => discard (planned s (.structType d) plan)
  | .enumType d, plan => discard (planned s (.enumType d) plan)
  | .use d, plan => discard (planned s (.use d) plan)
  | .classType d functions, plan => do
    match ← planned s (.classType d functions) plan with
    | (s, .methods id plans) =>
      let c ← symbol id
      within c.members d.head.pos () (checkFunctions s c.type false functions plans)
    | _ => pure ()
  | .traitType d functions, plan => do
    match ← planned s (.traitType d functions) plan with
    | (s, .methods id plans) =>
      let t := (← getThe Store).table
      let trait := t.symbol id
      let self := match t.member? trait "Self" with
        | some self => (t.symbol self).type
        | none => some .invalid
      within trait.members d.pos () (checkFunctions s self true functions plans)
    | _ => pure ()
  | .implementation d functions, plan => do
    match ← planned s (.implementation d functions) plan with
    | (s, .implementation scope target plans) =>
      within (some scope) d.pos () do
        match d.trait with
        | some path => checkTrait path functions d.pos
        | none => pure ()
        checkFunctions s (some target) false functions plans
    | _ => pure ()
  | .moduleBlock d body, plan => do
    match ← planned s (.moduleBlock d body) plan with
    | (s, .moduleBody id plans) =>
      within (← symbol id).members d.pos () (checkItems s body plans)
    | _ => pure ()
  | .expression e, _ => do report (← evaluateRead e).faults
  | .returnWith pos value, _ => reporting (returnValue s.result pos value)
  | .ifElse _ cond thenBody elseBody, _ => do
    reporting (condition cond "if condition")
    let before := (← ledger).snapshot
    checkBlock s .block thenBody
    let after := (← ledger).snapshot
    onLedger (·.restore before)
    checkElse s elseBody
    onLedger (·.join after)
  | .whileLoop _ cond body, _ => do
    reporting (condition cond "while condition")
    let before := (← ledger).snapshot
    checkBlock s .loop body
    onLedger (·.join before)
  | .forEach pos var iter body, _ => do
    let elem ← reported (← loopElement iter)
    let before := (← ledger).snapshot
    inScope .loop pos do
      let elem ← resolve elem
      report (← declareLocal var.text .letVar var.pos elem false true)
      checkBody s body
    onLedger (·.join before)
  | .loop _ body, _ => checkBlock s .loop body
  | .breakLoop pos, _ => reporting (insideLoop "break" pos)
  | .continueLoop pos, _ => reporting (insideLoop "continue" pos)
  | .matchOn _ scrutinee arms, _ => do
    let t ← evaluateRead scrutinee
    report t.faults
    let before := (← ledger).snapshot
    let ends ← checkArms s (if t.faults.isEmpty then t.type else .invalid) before arms
    match ends with
    | [] => pure ()
    | first :: others =>
      onLedger (·.restore first)
      others.forM fun other => onLedger (·.join other)
  | .block _ body, _ => checkBlock s .block body

/-- Checks the items of a unit or module with their plans. -/
def checkItems (s : Setting) : List Item → List Plan → AnalysisM Unit
  | [], _ => return ()
  | i :: rest, plans => do
    checkItem s i (some (plans.headD .none))
    checkItems s rest plans.tail

def checkBody (s : Setting) : List Item → AnalysisM Unit
  | [] => return ()
  | i :: rest => do
    checkItem s i none
    checkBody s rest

def checkBlock (s : Setting) (kind : ScopeKind) : List Item → AnalysisM Unit
  | [] => inScope kind .unknown (return ())
  | i :: rest =>
    inScope kind i.pos do
      checkItem s i none
      checkBody s rest

def checkElse (s : Setting) : Option (List Item) → AnalysisM Unit
  | none => return ()
  | some body => checkBlock s .block body

/-- Checks the arms of a match, each from the state before it; the states in which they end. -/
def checkArms (s : Setting) (t : Ty) (before : Snapshot) : List Arm → AnalysisM (List Snapshot)
  | [] => return []
  | a :: rest => do
    onLedger (·.restore before)
    checkArm s t a
    let first := (← ledger).snapshot
    let others ← checkArms s t before rest
    return first :: others

def checkArm (s : Setting) (t : Ty) : Arm → AnalysisM Unit
  | .mk p guard body =>
    inScope .block p.pos do
      reporting (pattern p t)
      match guard with
      | some e => reporting (condition e "match guard")
      | none => pure ()
      checkBody s body

/-- Checks the body of a function in the scope that was opened for it. -/
def checkFunction (s : Setting) (self : Option Ty) : Function → Option FunctionPlan → AnalysisM Unit
  | .mk f body, some p => do
    within (← symbol p.symbol).members f.head.pos () do
      declareParams self f p.signature.params
      checkOptionalBody { s with result := some p.signature.result } body
  | _, none => return ()

def checkOptionalBody (s : Setting) : Option (List Item) → AnalysisM Unit
  | none => return ()
  | some body => checkBody s body

/-- Checks the bodies of functions with `self`. Where a body is not needed, functions without one
are left out. -/
def checkFunctions (s : Setting) (self : Option Ty) (bodiesOnly : Bool) :
    List Function → List (Option FunctionPlan) → AnalysisM Unit
  | [], _ => return ()
  | f :: rest, plans => do
    if !bodiesOnly || f.body.isSome then checkFunction s self f (plans.headD none)
    checkFunctions s self bodiesOnly rest plans.tail

end

def checkFunctionBody (s : Setting) (self : Option Ty) (f : Function)
    (signature : Checking.Signature) : AnalysisM Unit := do
  declareParams self f.head signature.params
  checkOptionalBody { s with result := some signature.result } f.body

end Analysis

end UnitCheck
