import UnitCheck.Analysis.Check
import UnitCheck.Analysis.Validate

/-!
# Analysing a unit

The passes run one after the other on a new store. What they find is filed as errors and warnings;
the configuration only decides what is kept. An internal error ends the analysis after its pass.
-/

namespace UnitCheck

/-- The outcome of an analysis. -/
structure Report where
  store : Store := {}
  errors : List Diagnostic := []
  warnings : List Diagnostic := []
  /-- The number of errors left out because of the limit. -/
  truncated : Nat := 0
  /-- The internal error that ended the analysis. -/
  aborted : Option Diagnostic := none
  deriving Inhabited

namespace Report

def file (c : Config) (r : Report) (d : Diagnostic) : Report :=
  if d.code = .internal then
    { r with errors := r.errors ++ [d], aborted := r.aborted <|> some d }
  else if d.isWarning then { r with warnings := r.warnings ++ [d] }
  else if 0 < c.maxErrors ∧ c.maxErrors ≤ r.errors.length then
    { r with truncated := r.truncated + 1 }
  else { r with errors := r.errors ++ [d] }

def fileAll (c : Config) (r : Report) (ds : List Diagnostic) : Report := ds.foldl (file c) r

/-- Warnings as errors, where the configuration says so. -/
def promoted (c : Config) (r : Report) : Report :=
  if c.warningsAsErrors then { r with errors := r.errors ++ r.warnings, warnings := [] } else r

/-- The texts of what makes a unit fail; empty when it is accepted. -/
def failure (r : Report) : List String :=
  match r.aborted with
  | some d => ["semantic analysis aborted: " ++ d.text]
  | none => r.errors.map (·.text)

/-- The errors and warnings in source order. -/
def sorted (r : Report) : List Diagnostic := Diagnostic.sorted (r.errors ++ r.warnings)

end Report

namespace Analysis

def pass {α : Type} (c : Config) (r : Report) (act : AnalysisM α) : α × Report :=
  let ((a, found), store) := (act.run []).run r.store
  (a, { r with store }.fileAll c found)

/-- Runs a pass unless an earlier one has ended the analysis. -/
def nextPass {α : Type} (c : Config) (fallback : α) (r : Report) (act : AnalysisM α) : α × Report :=
  if r.aborted.isSome then (fallback, r) else pass c r act

/-- The warnings of the last look. -/
def validated (c : Config) (r : Report) : Report :=
  if r.aborted.isSome then r
  else
    match unregistered r.store with
    | some d => r.file c d
    | none =>
      let r := if c.warnUnused then r.fileAll c (unusedWarnings r.store.table) else r
      if c.advisoryBorrows then
        { r with warnings := r.warnings ++ ledgerWarnings r.store.ledger }
      else r

/-- All passes up to the last look. -/
def passes (c : Config) (items : List Item) : Report :=
  let (sketches, r) := pass c {} (collectItems [] items)
  let (left, r) := nextPass c [] r (resolveImports [] false)
  let (plans, r) := nextPass c [] r (declareItems items sketches)
  let (_, r) := nextPass c [] r (resolveImports left true)
  let (_, r) := nextPass c () r (checkItems {} items plans)
  r

end Analysis

def analyze (c : Config) (items : List Item) : Report :=
  let r := Analysis.validated c (Analysis.passes c items)
  if r.aborted.isSome then r else r.promoted c

end UnitCheck
