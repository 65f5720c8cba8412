import UnitCheck.Reading.Fields
import UnitCheck.Text.Blank
import UnitCheck.Tree.TypeExpr.Reader
import UnitCheck.Tree.Expr

/-!
# Names, paths, flags and types in nodes
-/

namespace UnitCheck.Reading

open Markup

def name (m : Fields) (n : Option Node) (what : String) : ReadM (Option Label) := do
  match n with
  | some n =>
    if n.isNull then fail m.node ("missing " ++ what)
    else if n.isScalar ∧ Text.isName n.text then return some ⟨n.text, ← positionOf n⟩
    else fail n (what ++ " must be a name")
  | none => fail m.node ("missing " ++ what)

def path (m : Fields) (n : Option Node) (what : String) : ReadM (Option (List String)) := do
  match n with
  | some n =>
    if n.isNull then fail m.node ("missing " ++ what)
    else if !n.isScalar then fail n (what ++ " must be a path")
    else
      let segments := Text.pathSegments n.text
      if segments.all Text.isName then return some segments
      else fail n ("invalid " ++ what ++ " " ++ Text.quoted n.text)
  | none => fail m.node ("missing " ++ what)

/-- An optional flag. One that cannot be read is reported and counts as not set. -/
def flag (n : Option Node) : ReadM Bool := do
  match n with
  | none => return false
  | some n =>
    if n.isNull then return false
    match n.bool? with
    | some b => return b
    | none =>
      report n "expected true or false"
      return false

/-- A whole number with an optional sign, as in a tuple member. -/
def isIndex (s : String) : Bool := (Number.readDecimal? s.toList).isSome

/-- Splits a leading word such as `mut` off a key. -/
def splitWord (word key : String) : String × Bool :=
  let start := (word ++ " ").toList
  if start.isPrefixOf key.toList then
    (String.ofList (Text.trimmed (key.toList.drop start.length)), true)
  else (key, false)

def typeExpr (n : Node) : ReadM (Option TypeExpr) := do
  if !n.isScalar ∨ n.isNull then fail n "a type must be written as a string"
  else match TypeExpr.read n.text (← positionOf n) with
    | .ok t => return some t
    | .error fault => fail n ("invalid type " ++ Text.quoted n.text ++ ": " ++ fault.message)

def typeParams (n : Option Node) : ReadM (Option (List Label)) := do
  match n with
  | none => return some []
  | some n =>
    if n.isNull then return some []
    match n with
    | .sequence _ _ items =>
      collect (fun g => do
        if g.isScalar ∧ Text.isName g.text then return some ⟨g.text, ← positionOf g⟩
        else fail g "type parameter must be a name") items
    | _ => fail n "generics must be a list of names"

/-- Reads the entries of a mapping from names to something; the names may start with a word. -/
def namedEntries {α : Type} (word what complaint : String)
    (reader : Label → Bool → Node → ReadM (Option α)) (n : Option Node) :
    ReadM (Option (List α)) := do
  match n with
  | none => return some []
  | some n =>
    if n.isNull then return some []
    match n with
    | .mapping _ _ entries =>
      collect (fun (key, value) => do
        let (text, marked) := splitWord word key.text
        if Text.isName text then reader ⟨text, ← positionOf key⟩ marked value
        else fail key (what ++ " name " ++ Text.quoted text ++ " is not a name")) entries
    | _ => fail n complaint

/-- An annotation that may be null. -/
def typeExprOrNull (n : Node) : ReadM (Option (Option TypeExpr)) := do
  if n.isNull then return some none else return (← typeExpr n).map some

end UnitCheck.Reading
