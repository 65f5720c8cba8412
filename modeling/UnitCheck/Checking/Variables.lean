import UnitCheck.Checking.Exprs

/-!
# Variables, conditions and loops
-/

namespace UnitCheck.Checking

/-- The type of a variable. Its value is checked before its name is declared, so that it sees an
outer variable of the same name. -/
def variableType (label : Label) (type : Option TypeExpr) (value : Option Expr) : CheckM Typed := do
  let declared ← match type with
    | none => pure none
    | some t => pure (some (← convertTyped t))
  match declared, value with
  | none, none =>
    return .failed .undefinedType label.pos
      ("cannot infer the type of " ++ Text.quoted label.text ++
        " without an annotation or initializer")
  | some d, none => return d
  | none, some value =>
    let init ← evaluate fun here => bindingValue here value
    match init.faults with
    | [] => return { type := ← resolve init.type }
    | faults => return .broken faults
  | some d, some value =>
    if !d.faults.isEmpty then return d
    let init ← evaluate fun here => bindingValue here value
    if !init.faults.isEmpty then return { type := d.type, faults := init.faults }
    match ← expect d.type init.type value.pos ("declaration of " ++ Text.quoted label.text) with
    | [] => return { type := ← resolve d.type }
    | faults => return { type := d.type, faults }

def constantType (label : Label) (type : Option TypeExpr) (value : Option Expr) : CheckM Typed := do
  match value with
  | none =>
    return .failed .undefinedType label.pos
      ("constant " ++ Text.quoted label.text ++ " has no value")
  | some value => variableType label type (some value)

/-- Checks an expression that stands on its own. -/
def evaluateRead (e : Expr) : CheckM Typed := evaluate fun here => (operand here e).read

/-- Checks an expression whose value goes elsewhere. -/
def evaluateTake (e : Expr) : CheckM Typed := evaluate fun here => (operand here e).take

def condition (e : Expr) (what : String) : CheckM (List Diagnostic) := do
  let t ← evaluateRead e
  match t.faults with
  | [] => expect .bool t.type e.pos what
  | faults => return faults

/-- The type of what a loop over a value of type `t` goes through. -/
def elementOf (t : Ty) (pos : Position) : CheckM Typed := do
  let notIterable : CheckM Typed := do
    let t ← resolve t
    return .failed .typeMismatch pos s!"cannot iterate over a value of type {t.text}"
  match ← behindRefs t with
  | .named "Range" [elem] => return { type := elem }
  | .array elem _ => return { type := elem }
  | .var v => if v.rigid then notIterable else return { type := ← fresh }
  | .basic .invalid => return { type := .invalid }
  | _ => notIterable

def loopElement (iter : Expr) : CheckM Typed := do
  let t ← evaluateRead iter
  match t.faults with
  | [] => elementOf t.type iter.pos
  | faults => return .broken faults

/-- Checks a return statement, in a function with the given result or outside of all. -/
def returnValue (result : Option Ty) (pos : Position) (value : Option Expr) :
    CheckM (List Diagnostic) := do
  match result, value with
  | none, none => return [.mk' .invalidScope pos "return outside of a function"]
  | none, some e =>
    let t ← evaluateTake e
    return .mk' .invalidScope pos "return outside of a function" :: t.faults
  | some want, none => expect want .unit pos "return value"
  | some want, some e =>
    let t ← evaluateTake e
    match t.faults with
    | [] => expect want t.type e.pos "return value"
    | faults => return faults

/-- Checks that a statement stands inside a loop of its own function. -/
def insideLoop (word : String) (pos : Position) : CheckM (List Diagnostic) := do
  match (← get).table.nearest .loop [.functionBody] with
  | some _ => return []
  | none => return [.mk' .invalidScope pos s!"{word} outside of a loop"]

end UnitCheck.Checking
