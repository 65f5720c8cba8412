import UnitCheck.Analysis.Plan

/-!
# Declaring names

The first pass declares the names of all items, so that items may refer to each other in any order.
Types are known from here on; the type of a structure, class or enumeration carries the names of the
modules around it. Imports are put on their scopes.
-/

namespace UnitCheck.Analysis

open Checking

/-- Opens the member scope of a symbol, runs something in it and leaves it again. -/
def openMembers (id : Nat) (kind : ScopeKind) (pos : Position) (act : AnalysisM Unit) :
    AnalysisM Unit := do
  let scope ← onTable (Table.enter kind)
  onTable (modify fun t =>
    (t.updateSymbol id fun s => { s with members := some scope }).updateScope scope
      fun s => { s with owner := some id })
  act
  exitScope pos

/-- Declares a symbol with members of its own. -/
def collectContainer (d : DeclHead) (kind : SymbolKind) (scope : ScopeKind) :
    AnalysisM (Option Nat) := do
  match ← onTable (Table.declare d.label.text kind d.label.pos) with
  | .error fault =>
    report [fault.diagnostic d.label.pos]
    return none
  | .ok id =>
    updateSymbol id fun s => { s with isPublic := d.isPublic }
    openMembers id scope d.label.pos (pure ())
    return some id

/-- Declares type parameters among the members of a symbol. -/
def collectTypeParams (id : Nat) (scope : Nat) : List Label → AnalysisM Unit
  | [] => return ()
  | p :: rest => do
    match ← onTable (Table.declareIn scope p.text .generic p.pos) with
    | .error fault => report [fault.diagnostic p.pos]
    | .ok param =>
      let v ← onRegistry (Registry.newVar p.text true)
      updateSymbol param fun s => { s with type := some (.var v) }
      updateSymbol id fun s => { s with generics := s.generics ++ [v] }
    collectTypeParams id scope rest

/-- Declares a structure, class or enumeration. `path` holds the names around it. -/
def collectType (path : List String) (d : DeclHead) (kind : SymbolKind) (params : List Label) :
    AnalysisM Sketch := do
  match ← collectContainer d kind .typeBody with
  | none => return .none
  | some id =>
    collectTypeParams id ((← symbol id).members.getD 0) params
    let name := Text.dotted (path ++ [d.label.text])
    let args := (← symbol id).generics.map Ty.var
    let type ← register (.named name args)
    updateSymbol id fun s => { s with type := some type }
    modifyThe Store fun s => { s with nominal := (name, id) :: s.nominal }
    return .symbol id

/-- Declares a trait; `Self` stands for the type that implements it. -/
def collectTrait (d : DeclHead) : AnalysisM Sketch := do
  match ← collectContainer d .traitType .traitBody with
  | none => return .none
  | some id =>
    let scope := (← symbol id).members.getD 0
    match ← onTable (Table.declareIn scope "Self" .generic d.label.pos) with
    | .error fault => report [fault.diagnostic d.label.pos]
    | .ok self =>
      let v ← onRegistry (Registry.newVar "Self" true)
      updateSymbol self fun s => { s with type := some (.var v) }
    return .symbol id

/-- Declares the type parameters of a function in the current scope. -/
def functionTypeParams (id : Nat) : List Label → AnalysisM Unit
  | [] => return ()
  | p :: rest => do
    let v ← onRegistry (Registry.newVar p.text true)
    match ← onTable (Table.declareTyped p.text .generic p.pos (some (.var v)) false) with
    | .error fault => report [fault.diagnostic p.pos]
    | .ok _ => updateSymbol id fun s => { s with generics := s.generics ++ [v] }
    functionTypeParams id rest

/-- Declares a function in the scope `home` and opens its own scope below the current one. -/
def declareFunction (f : Function) (home : Nat) : AnalysisM (Option Nat) := do
  let d := f.head.head
  match ← onTable (Table.declareIn home d.label.text .function d.label.pos) with
  | .error fault =>
    report [fault.diagnostic d.label.pos]
    return none
  | .ok id =>
    let shape : FunctionShape := { params := f.head.params.length, hasBody := f.body.isSome }
    updateSymbol id fun s => { s with isPublic := d.isPublic, shape := some shape }
    openMembers id .functionBody d.pos (functionTypeParams id f.head.typeParams)
    return some id

mutual

def collectItem (path : List String) : Item → AnalysisM Sketch
  | .structType d => collectType path d.head .structType d.typeParams
  | .classType d _ => collectType path d.head .classType []
  | .enumType d => collectType path d.head .enumType []
  | .traitType d _ => collectTrait d
  | .moduleBlock d body => do
    match ← collectContainer d .moduleBlock .moduleBody with
    | none => return .none
    | some id =>
      let members := (← symbol id).members
      let sketches ← within members d.pos [] (collectItems (path ++ [d.label.text]) body)
      return .moduleBody id sketches
  | .function f => do
    match ← declareFunction f (← getThe Store).table.current with
    | none => return .none
    | some id => return .symbol id
  | .use d => do
    onTable (Table.addImport { path := d.path, rename := d.rename, pos := d.pos })
    return .none
  | _ => return .none

def collectItems (path : List String) : List Item → AnalysisM (List Sketch)
  | [] => return []
  | i :: rest => do
    let sketch ← collectItem path i
    let sketches ← collectItems path rest
    return sketch :: sketches

end

end UnitCheck.Analysis
