import UnitCheck.Diagnostic
import UnitCheck.Scoping.Kind
import UnitCheck.Text.Quoted
import UnitCheck.Typing.Ty

/-!
# Scopes and symbols

Scopes form a tree whose root is the global scope, and every symbol belongs to a scope. Scopes are
entered and left like a stack; a scope that was left stays in the tree and can be entered again from
its parent. Neither scopes nor symbols are ever removed: a symbol's id is its place in the table,
and so is a scope's.
-/

namespace UnitCheck

/-- What a trait's implementations have to know of its functions. -/
structure FunctionShape where
  params : Nat
  hasBody : Bool
  deriving Repr, DecidableEq, Inhabited

structure Symbol where
  id : Nat
  name : String
  kind : SymbolKind
  /-- The scope that the name belongs to. -/
  scope : Nat
  pos : Position
  isPublic : Bool := false
  mutable : Bool := false
  initialized : Bool := false
  used : Bool := false
  type : Option Ty := none
  /-- The scope of the symbol's members. -/
  members : Option Nat := none
  /-- The type parameters of a generic function or structure. -/
  generics : List TypeVar := []
  /-- The symbol that this one was imported from. -/
  aliasOf : Option Nat := none
  shape : Option FunctionShape := none
  deriving Repr, Inhabited

def Symbol.text (s : Symbol) : String :=
  match s.type with
  | none => s!"{s.kind.name} {s.name}"
  | some t => s!"{s.kind.name} {s.name}: {t.text}"

/-- An import that has not been resolved yet. -/
structure Import where
  path : List String
  rename : Option String
  pos : Position
  deriving Repr, DecidableEq, Inhabited

/-- The name that an import binds: its own, or the last segment of its path. -/
def Import.name (i : Import) : String := i.rename.getD (i.path.getLastD "")

structure Scope where
  id : Nat
  kind : ScopeKind
  parent : Option Nat
  depth : Nat
  children : List Nat := []
  imports : List Import := []
  /-- The symbol whose members live here. -/
  owner : Option Nat := none
  /-- The names declared here with their symbols, in the order of declaration. -/
  names : List (String × Nat) := []
  deriving Repr, Inhabited

def Scope.sortedNames (s : Scope) : List String :=
  (s.names.map (·.1)).mergeSort fun a b => decide (a ≤ b)

structure Table where
  symbols : Array Symbol := #[]
  scopes : Array Scope := #[{ id := 0, kind := .global, parent := none, depth := 0 }]
  current : Nat := 0
  deriving Repr, Inhabited

/-- Computations on a table. -/
abbrev TableM := StateM Table

inductive ScopeFault where
  | missing (id : Int)
  | notChild (id : Int) (current : Nat)
  | leavingGlobal
  deriving Repr, DecidableEq, Inhabited

namespace ScopeFault

def message : ScopeFault → String
  | missing id => s!"scope {id} does not exist"
  | notChild id current => s!"scope {id} is not a child of the current scope {current}"
  | leavingGlobal => "cannot exit the global scope"

def diagnostic (f : ScopeFault) (pos : Position := .unknown) : Diagnostic :=
  .mk' .invalidScope pos f.message

end ScopeFault

inductive DeclareFault where
  | noScope (id : Int)
  | noSymbol (id : Int)
  | taken (name : String) (previous : Symbol)
  deriving Repr, Inhabited

namespace DeclareFault

def diagnostic (f : DeclareFault) (pos : Position) : Diagnostic :=
  match f with
  | noScope id => .mk' .internal pos s!"scope {id} not found"
  | noSymbol id => .mk' .internal pos s!"symbol {id} not found"
  | taken name previous =>
    (Diagnostic.mk' .alreadyDeclared pos
      (Text.quoted name ++ " already declared in this scope")).note
      (s!"previous declaration of {previous.kind.name} " ++ Text.quoted previous.name ++
        s!" at {previous.pos.text}")

end DeclareFault

namespace Table

/-! ## Access -/

def scope? (t : Table) (id : Int) : Option Scope := if id < 0 then none else t.scopes[id.toNat]?

def symbol? (t : Table) (id : Int) : Option Symbol := if id < 0 then none else t.symbols[id.toNat]?

/-- The scope with an id that is known to exist. -/
def scope (t : Table) (id : Nat) : Scope := t.scopes.getD id default

/-- The symbol with an id that is known to exist. -/
def symbol (t : Table) (id : Nat) : Symbol := t.symbols.getD id default

/-- The symbol that a name stands for: the one it was imported from, if it was. -/
def target (t : Table) (id : Nat) : Symbol :=
  let s := t.symbol id
  match s.aliasOf with
  | some target => t.symbol target
  | none => s

def updateSymbol (t : Table) (id : Nat) (f : Symbol → Symbol) : Table :=
  { t with symbols := t.symbols.modify id f }

def updateScope (t : Table) (id : Nat) (f : Scope → Scope) : Table :=
  { t with scopes := t.scopes.modify id f }

def markUsed (t : Table) (id : Nat) : Table := t.updateSymbol id fun s => { s with used := true }

/-- The names declared in a scope, in alphabetical order; none when there is no such scope. -/
def names (t : Table) (scope : Int) : List String :=
  match t.scope? scope with
  | some s => s.sortedNames
  | none => []

def lookupIn (t : Table) (scope : Int) (name : String) : Option Nat :=
  match t.scope? scope with
  | some s => s.names.lookup name
  | none => none

def memberNames (t : Table) (s : Symbol) : List String :=
  match s.members with
  | some scope => t.names scope
  | none => []

def member? (t : Table) (s : Symbol) (name : String) : Option Nat :=
  s.members.bind fun scope => t.lookupIn scope name

/-! ## The scope tree -/

/-- The scopes around a scope, starting with itself, for at most so many steps. -/
def outward (t : Table) : (steps : Nat) → (scope : Int) → List Scope
  | 0, _ => []
  | steps + 1, id =>
    match t.scope? id with
    | none => []
    | some s =>
      s :: match s.parent with
        | some p => outward t steps p
        | none => []

/-- The scopes around a scope, starting with itself, up to the global scope. -/
def enclosing (t : Table) (scope : Int) : List Scope := t.outward t.scopes.size scope

/-- Whether `inner` is `outer` or lies somewhere below it. -/
def within (t : Table) (inner outer : Int) : Bool :=
  (decide (0 ≤ inner) && inner == outer) || (t.enclosing inner).any fun s => (s.id : Int) == outer

/-- The first scope of the wanted kind among scopes, unless one of the kinds to stop at comes
before it. -/
def nearestIn (want : ScopeKind) (stop : List ScopeKind) : List Scope → Option Scope
  | [] => none
  | s :: rest =>
    if s.kind = want then some s
    else if stop.contains s.kind then none
    else nearestIn want stop rest

/-- The innermost scope of a kind around the current one. -/
def nearest (t : Table) (want : ScopeKind) (stop : List ScopeKind) : Option Scope :=
  nearestIn want stop (t.enclosing t.current)

/-! ## The scope stack -/

def enter (kind : ScopeKind) : TableM Nat := do
  let t ← get
  let id := t.scopes.size
  let parent := t.scope t.current
  let s : Scope := { id, kind, parent := some t.current, depth := parent.depth + 1 }
  let t := t.updateScope t.current fun p => { p with children := p.children ++ [id] }
  set { t with scopes := t.scopes.push s, current := id }
  return id

def reenter (id : Int) : TableM (Except ScopeFault Unit) := do
  let t ← get
  match t.scope? id with
  | none => return .error (.missing id)
  | some s =>
    if s.parent = some t.current then
      set { t with current := s.id }
      return .ok ()
    else return .error (.notChild id t.current)

def exit : TableM (Except ScopeFault Nat) := do
  let t ← get
  match (t.scope t.current).parent with
  | none => return .error .leavingGlobal
  | some parent =>
    set { t with current := parent }
    return .ok t.current

/-! ## Declarations -/

/-- Adds a name to a scope. A name may hide one of an outer scope. -/
def declareIn (scope : Int) (name : String) (kind : SymbolKind) (pos : Position) :
    TableM (Except DeclareFault Nat) := do
  let t ← get
  match t.scope? scope with
  | none => return .error (.noScope scope)
  | some s =>
    match s.names.lookup name with
    | some previous => return .error (.taken name (t.symbol previous))
    | none =>
      let id := t.symbols.size
      let t := t.updateScope s.id fun s => { s with names := s.names ++ [(name, id)] }
      set { t with symbols := t.symbols.push { id, name, kind, scope := s.id, pos } }
      return .ok id

def declare (name : String) (kind : SymbolKind) (pos : Position) :
    TableM (Except DeclareFault Nat) := do
  declareIn (← get).current name kind pos

def declareTyped (name : String) (kind : SymbolKind) (pos : Position) (type : Option Ty)
    (mutable : Bool) : TableM (Except DeclareFault Nat) := do
  match ← declare name kind pos with
  | .error e => return .error e
  | .ok id =>
    modify fun t => t.updateSymbol id fun s => { s with type, mutable }
    return .ok id

/-- Adds a name that stands for another symbol, which counts as used from then on. -/
def declareAlias (scope : Int) (name : String) (target : Int) (pos : Position) :
    TableM (Except DeclareFault Nat) := do
  match (← get).symbol? target with
  | none => return .error (.noSymbol target)
  | some tgt =>
    match ← declareIn scope name tgt.kind pos with
    | .error e => return .error e
    | .ok id =>
      modify fun t =>
        (t.updateSymbol id fun s =>
          { s with
            type := tgt.type
            members := tgt.members
            generics := tgt.generics
            mutable := tgt.mutable
            initialized := tgt.initialized
            shape := tgt.shape
            aliasOf := some tgt.id }).markUsed tgt.id
      return .ok id

/-! ## Imports -/

def addImport (i : Import) : TableM Unit :=
  modify fun t => t.updateScope t.current fun s => { s with imports := s.imports ++ [i] }

/-- Takes the imports off all scopes, in the order of the scopes. -/
def takeImports : TableM (List (Nat × Import)) := do
  let t ← get
  let clear (s : Scope) : Scope := { s with imports := [] }
  set { t with scopes := t.scopes.map clear }
  return t.scopes.toList.flatMap fun s => s.imports.map fun i => (s.id, i)

end Table

end UnitCheck
