import UnitCheck.Diagnostic
import UnitCheck.Text.Quoted

/-!
# Access to variables

A variable is read, written, borrowed or moved. An access that was granted stays on record until the
scope it was made under is released. The rules are those of a lock with many readers or one writer,
on a variable that has to be initialized before it is used and not used after it was moved.
-/

namespace UnitCheck

inductive AccessKind where
  | read | write | borrow | borrowMutably | move
  | unlisted (number : Int)
  deriving Repr, DecidableEq, Inhabited

namespace AccessKind

def listed : List AccessKind := [read, write, borrow, borrowMutably, move]

def ofNumber (n : Int) : AccessKind :=
  if n < 0 then unlisted n else (listed[n.toNat]?).getD (unlisted n)

def name : AccessKind → String
  | read => "read"
  | write => "write"
  | borrow => "immutable borrow"
  | borrowMutably => "mutable borrow"
  | move => "move"
  | unlisted n => s!"Kind({n})"

/-- Whether an access may not stand beside any other. -/
def isExclusive : AccessKind → Bool
  | write | borrowMutably => true
  | _ => false

def verb : AccessKind → String
  | write => "assign to"
  | borrowMutably | borrow => "borrow"
  | move => "move"
  | _ => "use"

end AccessKind

/-- One access. The scope is that of a table, or below -1 that of a statement. -/
structure Access where
  kind : AccessKind
  scope : Int
  pos : Position
  lifetime : String := ""
  deriving Repr, DecidableEq, Inhabited

/-- Why an access is refused. -/
inductive AccessFault where
  | untracked (symbol : Int)
  | moved (name : String) (movedAt : Position)
  | uninitialized (name : String) (kind : AccessKind)
  | notMutable (name : String)
  | assignedTwice (name : String)
  /-- The variable is used while someone may write to it. -/
  | usedWhileExclusive (name : String) (other : Access)
  | heldByReader (name : String) (kind : AccessKind) (other : Access)
  | heldByWriter (name : String) (kind : AccessKind) (other : Access)
  | unknownKind (kind : AccessKind)
  deriving Repr, Inhabited

namespace AccessFault

def code : AccessFault → Code
  | untracked _ => .internal
  | moved .. => .useAfterMove
  | uninitialized .. => .uninitializedVariable
  | notMutable _ => .immutableWrite
  | assignedTwice _ => .immutableWrite
  | usedWhileExclusive .. => .mutableBorrowWithImmutableBorrows
  | heldByReader .. => .mutableBorrowWithImmutableBorrows
  | heldByWriter .. => .multipleMutableBorrows
  | unknownKind _ => .internal

def message : AccessFault → String
  | untracked symbol => s!"symbol {symbol} is not tracked by the borrow checker"
  | moved name _ => "use of moved value " ++ Text.quoted name
  | uninitialized name .read => "use of uninitialized variable " ++ Text.quoted name
  | uninitialized name kind =>
    "cannot " ++ kind.verb ++ " uninitialized variable " ++ Text.quoted name
  | notMutable name => "cannot borrow immutable variable " ++ Text.quoted name ++ " as mutable"
  | assignedTwice name => "cannot assign twice to immutable variable " ++ Text.quoted name
  | usedWhileExclusive name _ =>
    "cannot use " ++ Text.quoted name ++ " while it is mutably borrowed"
  | heldByReader name kind _ =>
    "cannot " ++ kind.verb ++ " " ++ Text.quoted name ++ " because it is borrowed as immutable"
  | heldByWriter name kind _ =>
    "cannot " ++ kind.verb ++ " " ++ Text.quoted name ++
      " because it is already borrowed as mutable"
  | unknownKind kind => "unknown borrow kind " ++ kind.name

def conflictNote (other : Access) : String := s!"{other.kind.name} at {other.pos.text}"

def notes : AccessFault → List String
  | moved _ movedAt => [s!"value moved at {movedAt.text}"]
  | usedWhileExclusive _ other => [conflictNote other]
  | heldByReader _ _ other => [conflictNote other]
  | heldByWriter _ _ other => [conflictNote other]
  | _ => []

def diagnostic (f : AccessFault) (pos : Position) : Diagnostic :=
  { Diagnostic.mk' f.code pos f.message with notes := f.notes }

end AccessFault

/-- What is known of a variable. -/
structure Holding where
  name : String
  mutable : Bool
  initialized : Bool
  /-- Where the value was moved away; `none` while it is there. -/
  movedAt : Option Position := none
  /-- The accesses on record, oldest first. -/
  active : List Access := []
  deriving Repr, DecidableEq, Inhabited

namespace Holding

def isMoved (h : Holding) : Bool := h.movedAt.isSome

def writer? (h : Holding) : Option Access := h.active.find? (·.kind.isExclusive)

def reader? (h : Holding) : Option Access := h.active.find? (!·.kind.isExclusive)

def record (h : Holding) (a : Access) : Holding := { h with active := h.active ++ [a] }

/-- Grants an access that needs the variable for itself, once nobody else has it. -/
def recordAlone (h : Holding) (a : Access) : Except AccessFault Holding :=
  match h.reader?, h.writer? with
  | some other, _ => .error (.heldByReader h.name a.kind other)
  | none, some other => .error (.heldByWriter h.name a.kind other)
  | none, none => .ok (h.record a)

def access (h : Holding) (a : Access) : Except AccessFault Holding :=
  match h.movedAt with
  | some movedAt => .error (.moved h.name movedAt)
  | none =>
    match a.kind with
    | .read | .borrow =>
      if !h.initialized then .error (.uninitialized h.name a.kind)
      else
        match h.writer? with
        | some other => .error (.usedWhileExclusive h.name other)
        | none => .ok (h.record a)
    | .borrowMutably =>
      if !h.initialized then .error (.uninitialized h.name a.kind)
      else if !h.mutable then .error (.notMutable h.name)
      else h.recordAlone a
    | .write =>
      if h.initialized && !h.mutable then .error (.assignedTwice h.name)
      else (h.recordAlone a).map fun h => { h with initialized := true }
    | .move =>
      if !h.initialized then .error (.uninitialized h.name a.kind)
      else .ok { h with movedAt := some a.pos, active := [] }
    | .unlisted n => .error (.unknownKind (.unlisted n))

end Holding

end UnitCheck
