import UnitCheck.Scoping.Table
import UnitCheck.Text.Indented

/-!
# The text of a scope tree

Each scope with its names in alphabetical order, then the scopes below it.
-/

namespace UnitCheck

/-- What a dump says of a symbol beside its type. -/
def Symbol.flags (s : Symbol) : List String :=
  (if s.mutable then ["mut"] else []) ++
    (if !s.initialized && (s.kind == .letVar || s.kind == .constant) then ["uninit"] else []) ++
    (if !s.used then ["unused"] else []) ++
    (match s.aliasOf with
      | some id => [s!"alias of #{id}"]
      | none => [])

def Symbol.line (s : Symbol) : String :=
  let marks := match s.flags with
    | [] => ""
    | flags => " [" ++ ", ".intercalate flags ++ "]"
  s!"{s.text}{marks} @{s.pos.text}\n"

namespace Table

/-- The lines of a scope and of what is below it, behind a margin and for at most so many levels. -/
def scopeLines (t : Table) : (levels : Nat) → (margin : String) → (scope : Nat) → List String
  | 0, _, _ => []
  | levels + 1, margin, id =>
    let s := t.scope id
    let owner := match s.owner with
      | some o => s!" ({(t.symbol o).name})"
      | none => ""
    let inner := margin ++ "  "
    let own := s.sortedNames.map fun name =>
      match s.names.lookup name with
      | some symbol => Text.indented (t.symbol symbol).line inner
      | none => ""
    Text.indented s!"scope {s.id} {s.kind.name}{owner}\n" margin ::
      own ++ s.children.flatMap (scopeLines t levels inner)

def dump (t : Table) : String := String.join (t.scopeLines t.scopes.size "" 0)

end Table

end UnitCheck
