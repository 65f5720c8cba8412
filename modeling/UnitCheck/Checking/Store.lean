import UnitCheck.Ownership.Ledger
import UnitCheck.Scoping.Lookup
import UnitCheck.Typing.Assign

/-!
# The state of a check

Checking works on a registry of types, a table of names and a ledger of variables. What it finds
wrong is returned as a list of diagnostics, in the order of discovery; an empty list means success.
-/

namespace UnitCheck

/-- What happens to a variable: it is declared, or an access to it is granted. -/
inductive VarEvent where
  | declared (symbol : Nat) (initialized : Bool)
  | accessed (symbol : Nat) (kind : AccessKind)
  deriving Repr, DecidableEq, Inhabited

structure Store where
  registry : Registry := .empty
  table : Table := {}
  ledger : Ledger := {}
  /-- What has happened to variables so far, latest first. -/
  trail : List VarEvent := []
  /-- The symbols that declared the named types, by the names of the types, latest first. -/
  nominal : List (String × Nat) := []
  deriving Inhabited

abbrev CheckM := StateM Store

/-- The type of an expression, and what is wrong with it. An expression that cannot be given a type
has the invalid one. -/
structure Typed where
  type : Ty
  faults : List Diagnostic := []
  deriving Inhabited

def Typed.broken (faults : List Diagnostic) : Typed := { type := .invalid, faults }

namespace Checking

def onRegistry {α : Type} (x : RegistryM α) : CheckM α := fun s =>
  let (a, registry) := x.run s.registry
  (a, { s with registry })

def onTable {α : Type} (x : TableM α) : CheckM α := fun s =>
  let (a, table) := x.run s.table
  (a, { s with table })

def onLedger (f : Ledger → Ledger) : CheckM Unit := modify fun s => { s with ledger := f s.ledger }

/-! ## Types -/

def resolve (t : Ty) : CheckM Ty := onRegistry (Registry.resolve t)

def register (t : Ty) : CheckM Ty := onRegistry (Registry.register t)

def fresh : CheckM Ty := onRegistry Registry.fresh

def unify (a b : Ty) : CheckM (Except UnifyFault Ty) := onRegistry (Registry.unify a b).run

def hasFree (t : Ty) : CheckM Bool := do return (← get).registry.hasFree t

/-- What a type is without the references around it. -/
def stripRefs : Ty → Ty
  | .ref inner _ _ => stripRefs inner
  | t => t

/-- What a type stands for, without the references around it. -/
def behindRefs (t : Ty) : CheckM Ty := do return stripRefs (← resolve t)

/-! ## Names -/

def symbol (id : Nat) : CheckM Symbol := do return (← get).table.symbol id

/-- The symbol that a name stands for, once it has been used. -/
def useSymbol (id : Nat) : CheckM Symbol := do
  onTable (modify (·.markUsed id))
  return (← get).table.target id

def lookup (name : String) (pos : Position) : CheckM (Except Diagnostic Nat) := do
  return ((← get).table.lookup name).mapError (·.diagnostic pos)

def resolvePath (path : List String) (pos : Position) : CheckM (Except Diagnostic Nat) := do
  return ((← get).table.resolve path).mapError (·.diagnostic pos)

def updateSymbol (id : Nat) (f : Symbol → Symbol) : CheckM Unit :=
  onTable (modify fun t => t.updateSymbol id f)

/-- Gives a symbol a type. One that has a type keeps it, unified with the new one. -/
def setType (id : Int) (type : Ty) (pos : Position) : CheckM (List Diagnostic) := do
  match (← get).table.symbol? id with
  | none => return [.mk' .internal pos s!"symbol {id} not found"]
  | some s =>
    match s.type with
    | none =>
      updateSymbol s.id fun s => { s with type := some type }
      return []
    | some old =>
      if old.isInvalid then
        updateSymbol s.id fun s => { s with type := some type }
        return []
      match ← unify old type with
      | .ok unified =>
        updateSymbol s.id fun s => { s with type := some unified }
        return []
      | .error _ =>
        let old ← resolve old
        let new ← resolve type
        return [.mk' .typeMismatch pos ("cannot change the type of " ++ Text.quoted s.name ++
            s!" from {old.text} to {new.text}")]

/-- Leaves the current scope, which releases what was borrowed under it. -/
def leave : CheckM (Except ScopeFault Nat) := do
  match ← onTable Table.exit with
  | .error e => return .error e
  | .ok id =>
    onLedger (·.release id)
    return .ok id

/-! ## Variables -/

/-- Records an access to a variable; what is not a variable can be used freely. -/
def access (s : Symbol) (kind : AccessKind) (scope : Int) (pos : Position) :
    CheckM (List Diagnostic) := do
  let ledger := (← get).ledger
  if !ledger.isTracked s.id then return []
  match ledger.access s.id { kind, scope, pos } with
  | .ok ledger =>
    modify fun store => { store with ledger, trail := .accessed s.id kind :: store.trail }
    return []
  | .error fault => return [fault.diagnostic pos]

/-- Starts to keep a variable, forgetting what was known of its symbol. -/
def keep (id : Nat) (name : String) (mutable initialized : Bool) : CheckM Unit :=
  modify fun s => { s with
    ledger := s.ledger.declare id name mutable initialized
    trail := .declared id initialized :: s.trail }

/-- Declares a variable, parameter or constant in the current scope and starts to keep it. -/
def declareLocal (name : String) (kind : SymbolKind) (pos : Position) (type : Ty)
    (mutable initialized : Bool) : CheckM (List Diagnostic) := do
  match ← onTable (Table.declareTyped name kind pos (some type) mutable) with
  | .error fault => return [fault.diagnostic pos]
  | .ok id =>
    updateSymbol id fun s => { s with initialized }
    keep id name mutable initialized
    return []

/-! ## Expected types -/

/-- Checks that a value of type `src` may be used where `dst` is expected. Types with free variables
are unified. -/
def expect (dst src : Ty) (pos : Position) (what : String) : CheckM (List Diagnostic) := do
  if (← hasFree dst) || (← hasFree src) then
    match ← onRegistry (Registry.unifyAssignable dst src).run with
    | .ok () => return []
    | .error fault@(.recursive ..) => return [fault.diagnostic pos]
    | .error (.mismatch ..) => pure ()
  if ← onRegistry (Registry.assignable dst src) then return []
  let dst ← resolve dst
  let src ← resolve src
  return [.mk' .typeMismatch pos
    s!"mismatched types in {what}: expected {dst.text}, found {src.text}"]

/-- Whether a value of one type can be assigned to the other. -/
def assignableEither (a b : Ty) : CheckM Bool := do
  if ← onRegistry (Registry.assignable a b) then return true
  onRegistry (Registry.assignable b a)

/-- Whether either type can stand in for the other. -/
def compatible (a b : Ty) : CheckM Bool := do
  if (← hasFree a) || (← hasFree b) then
    if (← onRegistry (Registry.unifyAssignable a b).run).isOk then return true
    if (← onRegistry (Registry.unifyAssignable b a).run).isOk then return true
    assignableEither a b
  else assignableEither a b

end Checking

end UnitCheck
