import UnitCheck.Reading.Exprs

/-!
# Reading patterns

`_`, literals, names, `mut` names, variant paths, lists (tuples), and mappings with a variant and
what it holds.
-/

namespace UnitCheck.Reading

open Markup

def scalarPattern (n : Node) (tag : String) : ReadM (Option Pattern) := do
  let pos ← positionOf n
  let v := n.text
  if n.isQuoted then return some (.literal (.string v) pos)
  else if isLiteralTag tag then return (← literalScalar n tag).map fun l => .literal l pos
  else if v = "_" then return some (.wildcard pos)
  else
    let (text, mutable) := splitWord "mut" v
    if mutable then
      if Text.isName text then return some (.binding text true pos)
      else fail n ("invalid binding " ++ Text.quoted v)
    else if v.toList.contains '.' ∨ v.toList.contains ':' then
      let segments := Text.pathSegments v
      if segments.all Text.isName then return some (.variant segments [] pos)
      else fail n ("invalid variant path " ++ Text.quoted v)
    else if Text.isName v then return some (.binding v false pos)
    else fail n ("invalid pattern " ++ Text.quoted v)

/-- What a variant holds: one pattern, or a list of them. -/
def payload (pattern : Node → ReadM (Option Pattern)) (n : Option Node) :
    ReadM (Option (List Pattern)) := do
  match n with
  | none => return some []
  | some n =>
    if n.isNull then return some []
    match n with
    | .sequence _ _ items => collect pattern items
    | _ => return (← pattern n).map fun p => [p]

/-- One level of a pattern, with the reader of the levels below. -/
def patternNode (pattern : Node → ReadM (Option Pattern)) (n : Node) : ReadM (Option Pattern) := do
  match n with
  | .scalar _ _ tag _ => scalarPattern n tag
  | .sequence _ _ items =>
    let pos ← positionOf n
    return (← collect pattern items).map fun ps => .tuple ps pos
  | .mapping _ _ entries =>
    let pos ← positionOf n
    let m ← fields n entries
    let variant ← path m (m.get "variant") "variant path"
    let held ← payload pattern (m.get "of")
    let known ← finish m "pattern" ["variant", "of"]
    return if known then do return .variant (← variant) (← held) pos else none
  | .reference .. => fail n "expected a pattern"

def pattern : (depth : Nat) → Node → ReadM (Option Pattern)
  | 0, n => fail n "expected a pattern"
  | depth + 1, n => patternNode (pattern depth) n

end UnitCheck.Reading
