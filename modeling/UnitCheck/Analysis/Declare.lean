import UnitCheck.Analysis.Collect

/-!
# Declaring types

The second pass gives every item its type: the signatures of functions, the types of fields and
variants, and the targets of implementations. Variables and constants are declared here, and are not
initialized yet.
-/

namespace UnitCheck.Analysis

open Checking

def declareTyped (label : Label) (kind : SymbolKind) (type : Option Ty) (mutable isPublic : Bool) :
    AnalysisM (Option Nat) := do
  match ← onTable (Table.declareTyped label.text kind label.pos type mutable) with
  | .error fault =>
    report [fault.diagnostic label.pos]
    return none
  | .ok id =>
    updateSymbol id fun s => { s with isPublic }
    return some id

/-- Declares a variable or constant. Without an annotation its type is not known yet. -/
def declareValue (label : Label) (kind : SymbolKind) (type : Option TypeExpr)
    (mutable isPublic : Bool) : AnalysisM Plan := do
  let type ← match type with
    | none => pure none
    | some t => pure (some (← reported (← convertTyped t)))
  match ← declareTyped label kind type mutable isPublic with
  | none => return .none
  | some id =>
    keep id label.text mutable false
    return .value id

/-- Finds the signature of a function in its own scope, where its type parameters are declared. -/
def declareSignature (id : Nat) (f : FunctionHead) : AnalysisM (Option FunctionPlan) := do
  within (← symbol id).members f.head.pos none do
    let (s, faults) ← signature f
    report faults
    updateSymbol id fun symbol => { symbol with type := some s.type }
    return some { symbol := id, signature := s }

/-- Declares functions in the scope `home`, with their own scopes below the current one. -/
def declareMethods (home : Nat) : List Function → AnalysisM (List (Option FunctionPlan))
  | [] => return []
  | f :: rest => do
    let plan ← match ← declareFunction f home with
      | none => pure none
      | some id => declareSignature id f.head
    let plans ← declareMethods home rest
    return plan :: plans

def declareMembers (id : Nat) (pos : Position) (functions : List Function) : AnalysisM Plan := do
  let members := (← symbol id).members
  let plans ← within members pos [] (declareMethods (members.getD 0) functions)
  return .methods id plans

def declareFields (id : Nat) (pos : Position) (fields : List FieldDecl) : AnalysisM Unit := do
  within (← symbol id).members pos () do
    fields.forM fun f => do
      let type ← reported (← convertTyped f.type)
      discard (declareTyped f.label .field (some type) false f.isPublic)

/-- Declares the variants of an enumeration. One that holds something is a function to the
enumeration. -/
def declareVariants (id : Nat) (d : EnumDecl) : AnalysisM Unit := do
  let s ← symbol id
  let enum := s.type.getD .invalid
  within s.members d.head.pos () do
    d.variants.forM fun v => do
      let type ← match v.payload with
        | none => pure enum
        | some t =>
          let payload ← reported (← convertTyped t)
          register (.func [payload] enum)
      discard (declareTyped v.label .variant (some type) false v.isPublic)

/-- The symbol that declared a named type. -/
def owner? (t : Ty) : CheckM (Option Symbol) := do
  match ← resolve t with
  | .named name _ =>
    let s ← get
    return (s.nominal.lookup name).map s.table.symbol
  | _ => return none

/-- Finds the target of an implementation and declares its functions, in the scope of the
implementation. Without a trait they are members of the target type too. -/
def implement (d : ImplHead) (functions : List Function) (id scope : Nat) :
    AnalysisM (Ty × List (Option FunctionPlan)) := do
  let target ← reported (← convertTyped d.target)
  updateSymbol id fun s => { s with type := some target }
  discard (declareTyped ⟨"Self", d.pos⟩ .generic (some target) false false)
  let home ← match d.trait with
    | some _ => pure scope
    | none => do
      let owner ← owner? target
      pure ((owner.bind (·.members)).getD scope)
  let plans ← declareMethods home functions
  return (target, plans)

def declareImplementation (d : ImplHead) (functions : List Function) : AnalysisM Plan := do
  match ← onTable (Table.declare s!"impl@{d.pos.text}" .implementation d.pos) with
  | .error fault =>
    report [fault.diagnostic d.pos]
    return .none
  | .ok id =>
    let scope ← onTable (Table.enter .implBody)
    onTable (modify fun t =>
      (t.updateSymbol id fun s => { s with members := some scope }).updateScope scope
        fun s => { s with owner := some id })
    let (target, plans) ← implement d functions id scope
    exitScope d.pos
    return .implementation scope target plans

mutual

def declareItem : Item → Sketch → AnalysisM Plan
  | .letVar d, _ => declareValue d.label .letVar d.type d.mutable false
  | .constant d, _ => declareValue d.head.label .constant d.type false d.head.isPublic
  | .function f, .symbol id => do
    match ← declareSignature id f.head with
    | none => return .none
    | some plan => return .function plan
  | .structType d, .symbol id => do
    declareFields id d.head.pos d.fields
    return .none
  | .classType d functions, .symbol id => do
    declareFields id d.head.pos d.fields
    declareMembers id d.head.pos functions
  | .enumType d, .symbol id => do
    declareVariants id d
    return .none
  | .traitType d functions, .symbol id => declareMembers id d.pos functions
  | .implementation d functions, _ => declareImplementation d functions
  | .moduleBlock d body, .moduleBody id sketches => do
    let plans ← within (← symbol id).members d.pos [] (declareItems body sketches)
    return .moduleBody id plans
  | _, _ => return .none

def declareItems : List Item → List Sketch → AnalysisM (List Plan)
  | [], _ => return []
  | i :: rest, sketches => do
    let plan ← declareItem i (sketches.headD .none)
    let plans ← declareItems rest sketches.tail
    return plan :: plans

end

end UnitCheck.Analysis
