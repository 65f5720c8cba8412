import UnitCheck.Analysis.Plan

/-!
# Resolving imports

An import declares another name for what its path stands for. Imports that cannot be resolved before
the signatures are known get a second try afterwards.
-/

namespace UnitCheck.Analysis

open Checking

def unresolvedImport (i : Import) (fault : LookupFault) : Diagnostic :=
  (Diagnostic.mk' .importError i.pos
    ("unresolved import " ++ Text.quoted (Text.dotted i.path))).note fault.message

/-- Resolves imports one after the other, and returns those that are left for later. On the final
try none is left: those that cannot be resolved are reported. -/
def resolveEach (final : Bool) : List (Nat × Import) → AnalysisM (List (Nat × Import))
  | [] => return []
  | (scope, i) :: rest => do
    match (← getThe Store).table.resolveFrom scope i.path with
    | .ok target =>
      match ← onTable (Table.declareAlias scope i.name target i.pos) with
      | .ok _ => pure ()
      | .error fault => report [fault.diagnostic i.pos]
      resolveEach final rest
    | .error fault =>
      if final then
        report [unresolvedImport i fault]
        resolveEach final rest
      else return (scope, i) :: (← resolveEach final rest)

/-- Resolves the imports that are waiting: those left by an earlier try, then those on the
scopes. -/
def resolveImports (left : List (Nat × Import)) (final : Bool) :
    AnalysisM (List (Nat × Import)) := do
  let pending ← onTable Table.takeImports
  resolveEach final (left ++ pending)

end UnitCheck.Analysis
