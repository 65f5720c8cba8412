import UnitCheck.Checking.Annotate

/-!
# Passes and what they hand on

The passes of an analysis go over the same items. What one pass finds out about an item and a later
one needs is kept beside the items, in lists of the same shape: a sketch holds the symbol that the
first pass declared, a plan the types and scopes that the second pass added. Diagnostics are logged
in the order of discovery.
-/

namespace UnitCheck

/-- What is known of an item once all names are declared. -/
inductive Sketch where
  | none
  | symbol (id : Nat)
  | moduleBody (id : Nat) (body : List Sketch)
  deriving Inhabited

/-- A function with its symbol and signature. -/
structure FunctionPlan where
  symbol : Nat
  signature : Checking.Signature
  deriving Inhabited

/-- What is known of an item once all signatures are. -/
inductive Plan where
  | none
  /-- A variable or constant. -/
  | value (symbol : Nat)
  | function (f : FunctionPlan)
  /-- The functions of a class or trait; `none` for one that could not be declared. -/
  | methods (symbol : Nat) (functions : List (Option FunctionPlan))
  | implementation (scope : Nat) (target : Ty) (functions : List (Option FunctionPlan))
  | moduleBody (symbol : Nat) (body : List Plan)
  deriving Inhabited

/-- Computations that log diagnostics. -/
abbrev AnalysisM := StateT (List Diagnostic) CheckM

namespace Analysis

def report (found : List Diagnostic) : AnalysisM Unit := modify (· ++ found)

/-- Logs the faults of a typed thing and returns its type. -/
def reported (t : Typed) : AnalysisM Ty := do
  report t.faults
  return t.type

/-- Runs a computation that returns what is wrong, and logs that. -/
def reporting (check : CheckM (List Diagnostic)) : AnalysisM Unit := do
  let found ← check
  report found

def exitScope (pos : Position) : AnalysisM Unit := do
  match ← Checking.leave with
  | .ok _ => pure ()
  | .error fault => report [.mk' .internal pos fault.diagnostic.text]

/-- Runs something in a scope that an earlier pass has opened. -/
def within {α : Type} (scope : Option Nat) (pos : Position) (fallback : α) (act : AnalysisM α) :
    AnalysisM α := do
  let id : Int := match scope with
    | some id => id
    | none => -1
  match ← Checking.onTable (Table.reenter id) with
  | .error fault =>
    report [.mk' .internal pos fault.diagnostic.text]
    return fallback
  | .ok () =>
    let result ← act
    exitScope pos
    return result

end Analysis

end UnitCheck
