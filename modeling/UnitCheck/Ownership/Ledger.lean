import UnitCheck.Ownership.Access

/-!
# The ledger of variables

Keeps a holding for every variable that has been declared. A snapshot remembers which variables are
initialized and moved, so that several branches can start from one state and be joined at their end.
-/

namespace UnitCheck

structure Ledger where
  /-- The holdings by the ids of their symbols. -/
  holdings : List (Int × Holding) := []
  nextTemporary : Int := -2
  deriving Repr, Inhabited

/-- The part of a holding that branches of a program change on their own. -/
structure Flow where
  initialized : Bool
  movedAt : Option Position
  deriving Repr, DecidableEq, Inhabited

abbrev Snapshot := List (Int × Flow)

/-- A holding after either of two branches: initialized if both initialize it, moved if one of them
moves it. -/
def Holding.join (h : Holding) (other : Flow) : Holding :=
  let h := { h with initialized := h.initialized && other.initialized }
  match h.movedAt, other.movedAt with
  | none, some pos => { h with movedAt := some pos, active := [] }
  | _, _ => h

/-- Whether a scope stands for a statement. -/
def isTemporary (scope : Int) : Bool := decide (scope < -1)

namespace Ledger

def get? (l : Ledger) (symbol : Int) : Option Holding := l.holdings.lookup symbol

def mapHoldings (l : Ledger) (f : Int → Holding → Holding) : Ledger :=
  { l with holdings := l.holdings.map fun (id, h) => (id, f id h) }

/-- Puts a holding in the place of a symbol's earlier one, if it has one. -/
def put (l : Ledger) (symbol : Int) (h : Holding) : Ledger :=
  if (l.get? symbol).isSome then l.mapHoldings fun id old => if id = symbol then h else old
  else { l with holdings := l.holdings ++ [(symbol, h)] }

/-- Starts to keep a variable, forgetting what was known of its symbol. -/
def declare (l : Ledger) (symbol : Int) (name : String) (mutable initialized : Bool) : Ledger :=
  l.put symbol { name, mutable, initialized }

def isTracked (l : Ledger) (symbol : Int) : Bool := (l.get? symbol).isSome

def isInitialized (l : Ledger) (symbol : Int) : Bool :=
  match l.get? symbol with
  | some h => h.initialized
  | none => false

def isMoved (l : Ledger) (symbol : Int) : Bool :=
  match l.get? symbol with
  | some h => h.isMoved
  | none => false

def active (l : Ledger) (symbol : Int) : List Access :=
  match l.get? symbol with
  | some h => h.active
  | none => []

/-- A new scope for what lives until the end of a statement. -/
def temporary (l : Ledger) : Int × Ledger :=
  (l.nextTemporary, { l with nextTemporary := l.nextTemporary - 1 })

/-- Applies an access to a symbol; a refused one changes nothing. -/
def access (l : Ledger) (symbol : Int) (a : Access) : Except AccessFault Ledger :=
  match l.get? symbol with
  | none => .error (.untracked symbol)
  | some h => (h.access a).map (l.put symbol)

def release (l : Ledger) (scope : Int) : Ledger :=
  l.mapHoldings fun _ h => { h with active := h.active.filter (·.scope ≠ scope) }

def heldUnder (l : Ledger) (scope : Int) : Nat :=
  (l.holdings.flatMap fun (_, h) => h.active).countP (·.scope = scope)

/-! ## Branches -/

def snapshot (l : Ledger) : Snapshot := l.holdings.map fun (id, h) =>
  (id, ⟨h.initialized, h.movedAt⟩)

/-- Goes back to a snapshot; symbols declared after it was taken are left alone. -/
def restore (l : Ledger) (s : Snapshot) : Ledger :=
  l.mapHoldings fun id h =>
    match s.lookup id with
    | some flow => { h with initialized := flow.initialized, movedAt := flow.movedAt }
    | none => h

/-- Merges the state at the end of another branch into this one. -/
def join (l : Ledger) (other : Snapshot) : Ledger :=
  l.mapHoldings fun id h =>
    match other.lookup id with
    | some flow => h.join flow
    | none => h

/-! ## Validation -/

/-- What is wrong with a holding's records. -/
def holdingFaults (h : Holding) : List Diagnostic :=
  let others := h.active.length
  let first := (h.active.head?.map (·.pos)).getD .unknown
  (if h.isMoved && !h.active.isEmpty then
    [Diagnostic.mk' .internal first
      ("moved value " ++ Text.quoted h.name ++ s!" still has {others} active records")]
  else []) ++
  (if h.writer?.isSome && 1 < others then
    [Diagnostic.mk' .internal first
      (Text.quoted h.name ++ s!" holds a mutable record alongside {others - 1} others")]
  else []) ++
  (h.active.filter fun a => isTemporary a.scope).map fun a =>
    Diagnostic.warn .danglingBorrow a.pos
      (a.kind.name ++ " of " ++ Text.quoted h.name ++ " outlives its statement")

/-- Goes over all records again and warns of those that outlive their statement, by symbol. -/
def validate (l : Ledger) : List Diagnostic :=
  (l.holdings.mergeSort fun a b => decide (a.1 ≤ b.1)).flatMap fun (_, h) => holdingFaults h

end Ledger

end UnitCheck
