import UnitCheck.Scoping.Table
import UnitCheck.Text.Segments
import UnitCheck.Text.Similar

/-!
# Finding names

A plain name is looked for in the scopes around the place of use, from the inside out. A qualified
name goes on through the members of containers; members that are not public, variants apart, can be
reached only from inside their container.
-/

namespace UnitCheck

inductive LookupFault where
  | emptyPath
  | notFound (name : String) (similar : Option String)
  | noMembers (kind : SymbolKind) (path : List String) (segment : String)
  | noMember (kind : SymbolKind) (path : List String) (segment : String) (similar : Option String)
  | hidden (member container : Symbol)
  deriving Repr, Inhabited

namespace LookupFault

def code : LookupFault → Code
  | emptyPath => .notFound
  | notFound .. => .notFound
  | noMembers .. => .invalidScope
  | noMember .. => .notFound
  | hidden .. => .invalidVisibility

def message : LookupFault → String
  | emptyPath => "empty path"
  | notFound name _ => "cannot find " ++ Text.quoted name ++ " in this scope"
  | noMembers kind path segment =>
    kind.name ++ " " ++ Text.quoted (Text.dotted path) ++ " has no members; cannot resolve " ++
      Text.quoted segment
  | noMember kind path segment _ =>
    kind.name ++ " " ++ Text.quoted (Text.dotted path) ++ " has no member " ++ Text.quoted segment
  | hidden member container =>
    member.kind.name ++ " " ++ Text.quoted member.name ++ " is private to " ++
      container.kind.name ++ " " ++ Text.quoted container.name

def suggestion (similar : Option String) : List String :=
  match similar with
  | some s => ["did you mean " ++ Text.quoted s ++ "?"]
  | none => []

def notes : LookupFault → List String
  | notFound _ similar => suggestion similar
  | noMember _ _ _ similar => suggestion similar
  | hidden member _ => [s!"declared at {member.pos.text}"]
  | _ => []

def diagnostic (f : LookupFault) (pos : Position) : Diagnostic :=
  { Diagnostic.mk' f.code pos f.message with notes := f.notes }

end LookupFault

namespace Table

/-- The innermost symbol with a name that can be seen from a scope. -/
def lookupFrom (t : Table) (scope : Int) (name : String) : Except LookupFault Nat :=
  let scopes := t.enclosing scope
  match scopes.findSome? (·.names.lookup name) with
  | some id => .ok id
  | none => .error (.notFound name (Text.nearest? (scopes.flatMap (·.sortedNames)) name))

/-- The innermost symbol with a name that can be seen from the current scope. -/
def lookup (t : Table) (name : String) : Except LookupFault Nat := t.lookupFrom t.current name

/-- Whether a member of a container can be reached from a scope. -/
def reachable (t : Table) (scope : Int) (container member : Symbol) : Bool :=
  member.isPublic || member.kind == .variant ||
    match container.members with
    | some home => t.within scope home
    | none => false

/-- Goes on from a symbol through its members. `path` is the part of the path behind. -/
def resolveMembers (t : Table) (scope : Int) :
    (path : List String) → (symbol : Nat) → List String → Except LookupFault Nat
  | _, symbol, [] => .ok symbol
  | path, symbol, segment :: rest =>
    let container := t.symbol symbol
    if !container.kind.isContainer then .error (.noMembers container.kind path segment)
    else
      match t.member? container segment with
      | none =>
        .error (.noMember container.kind path segment
          (Text.nearest? (t.memberNames container) segment))
      | some id =>
        let member := t.symbol id
        if t.reachable scope container member then
          resolveMembers t scope (path ++ [segment]) id rest
        else .error (.hidden member container)

/-- What a path stands for, as seen from a scope. -/
def resolveFrom (t : Table) (scope : Int) : List String → Except LookupFault Nat
  | [] => .error .emptyPath
  | first :: rest =>
    match t.lookupFrom scope first with
    | .error e => .error e
    | .ok symbol => t.resolveMembers scope [first] symbol rest

/-- What a path stands for, as seen from the current scope. -/
def resolve (t : Table) (path : List String) : Except LookupFault Nat :=
  t.resolveFrom t.current path

end Table

end UnitCheck
