import UnitCheck.Analysis.Plan

/-!
# Implementations of traits

An implementation has to have every function of its trait that has no body there, with the same
number of parameters, and no others.
-/

namespace UnitCheck.Analysis

open Checking

/-- Checks a function of a trait against those of an implementation. -/
def traitFunctionFaults (trait required : Symbol) (functions : List Function) (pos : Position) :
    List Diagnostic :=
  let name := required.name
  match required.shape, functions.reverse.find? (·.head.head.label.text == name) with
  | some shape, none =>
    if shape.hasBody then []
    else
      [(Diagnostic.mk' .invalidType pos
        ("missing method " ++ Text.quoted name ++ " required by trait " ++
          Text.quoted trait.name)).note
        (Text.quoted name ++ s!" declared at {required.pos.text}")]
  | some shape, some f =>
    let count := f.head.params.length
    if count = shape.params then []
    else
      [.mk' .typeMismatch f.head.head.label.pos
        ("method " ++ Text.quoted name ++ " of trait " ++ Text.quoted trait.name ++
          s!" takes {shape.params} parameters, got {count}")]
  | none, _ => []

/-- The functions among the members of a trait, in alphabetical order. What is not a trait has
none. -/
def methodsOf (t : Table) (trait : Symbol) : List Nat :=
  if trait.kind = .traitType then
    ((t.memberNames trait).filterMap (t.member? trait)).filter fun id =>
      (t.symbol id).kind = .function
  else []

/-- What is wrong with the functions of an implementation of what was found. -/
def traitFaults (t : Table) (functions : List Function) (pos : Position) :
    Except LookupFault Nat → List Diagnostic
  | .error fault => [fault.diagnostic pos]
  | .ok id =>
    let trait := t.target id
    if trait.kind = .traitType then
      (methodsOf t trait).flatMap (fun m => traitFunctionFaults trait (t.symbol m) functions pos) ++
        (functions.map (·.head.head.label)).flatMap fun label =>
          if (t.memberNames trait).contains label.text then []
          else
            [.mk' .invalidType label.pos
              ("method " ++ Text.quoted label.text ++ " is not a member of trait " ++
              Text.quoted trait.name)]
    else
      [.mk' .invalidType pos
        (s!"{trait.kind.name} " ++ Text.quoted trait.name ++ " is not a trait")]

/-- Checks that an implementation and its trait have the same functions. The trait and its functions
count as used. -/
def checkTrait (path : List String) (functions : List Function) (pos : Position) :
    AnalysisM Unit := do
  let t := (← getThe Store).table
  let found := t.resolve path
  report (traitFaults t functions pos found)
  match found with
  | .error _ => pure ()
  | .ok id => (id :: methodsOf t (t.target id)).forM fun id => onTable (modify (·.markUsed id))

end UnitCheck.Analysis
