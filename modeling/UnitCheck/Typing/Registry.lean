import UnitCheck.Typing.Ty

/-!
# The registry of types

A registry holds each type once, in the order of registration, the basic types first; the id of a
type is its place. The parts of a type are registered before it. A registry also holds what
variables have been found to stand for.
-/

namespace UnitCheck

/-- A type with its size. Most types differ in size, so that entries are told apart at once. -/
structure Registry.Entry where
  type : Ty
  size : Nat
  size_eq : size = type.size
  deriving Repr

namespace Registry.Entry

def of (t : Ty) : Entry := ⟨t, t.size, rfl⟩

theorem eq_iff (a b : Entry) : a = b ↔ a.type = b.type := by
  obtain ⟨t, _, rfl⟩ := a
  obtain ⟨u, _, rfl⟩ := b
  constructor
  · intro h
    exact congrArg type h
  · rintro rfl
    rfl

theorem beq_iff (a b : Entry) : (a.size == b.size && a.type == b.type) = true ↔ a = b := by
  rw [eq_iff, Bool.and_eq_true, beq_iff_eq, beq_iff_eq, a.size_eq, b.size_eq]
  constructor
  · exact And.right
  · intro h
    exact ⟨congrArg Ty.size h, h⟩

instance : DecidableEq Entry := fun a b => decidable_of_iff _ (beq_iff a b)

end Registry.Entry

structure Registry where
  /-- Tells the variables of one registry from those of another. -/
  number : Nat := 0
  entries : Array Registry.Entry
  /-- What variables stand for, by their ids, latest first. -/
  bindings : List (Nat × Ty) := []
  /-- The variables that came from other registries, with what they became here. -/
  adopted : List (TypeVar × TypeVar) := []
  deriving Repr

abbrev RegistryM := StateM Registry

namespace Registry

/-- A registry that holds the basic types. -/
def empty (number : Nat := 0) : Registry :=
  { number, entries := (Basic.all.map fun b => .of (.basic b)).toArray }

instance : Inhabited Registry := ⟨empty⟩

def size (r : Registry) : Nat := r.entries.size

def get? (r : Registry) (id : Nat) : Option Ty := r.entries[id]?.map (·.type)

/-- The id of a registered type; a variable knows its own. -/
def idOf (r : Registry) : Ty → Nat
  | .var v => v.id
  | t => r.entries.idxOf (.of t)

def contains (r : Registry) (t : Ty) : Bool := r.get? (r.idOf t) == some t

/-! ## Registration -/

/-- Adds a type whose parts are registered, unless it is there already. -/
def add (r : Registry) (t : Ty) : Registry :=
  let e := Entry.of t
  if e ∈ r.entries then r else { r with entries := r.entries.push e }

def intern (t : Ty) : RegistryM Ty := do
  modify (·.add t)
  return t

/-- Takes in a variable of another registry: it gets a new id here. -/
def adopt (v : TypeVar) : RegistryM TypeVar := do
  let r ← get
  match r.adopted.lookup v with
  | some w => return w
  | none =>
    let w := { v with id := r.size, registry := r.number }
    let renew (t : Ty) : Ty := if t = .var v then .var w else t
    set { r with
      entries := r.entries.push (.of (.var w))
      bindings := r.bindings.map fun (id, t) => (id, renew t)
      adopted := (v, w) :: r.adopted }
    return w

mutual

/-- Registers a type after its parts; one that is held already is left as it is. An empty tuple is
the unit type. -/
def register (t : Ty) : RegistryM Ty := do
  if (← get).contains t then return t
  match t with
  | .basic b => return .basic b
  | .var v => return .var (← adopt v)
  | .array elem n => intern (.array (← register elem) n)
  | .tuple [] => return .unit
  | .tuple (t :: ts) =>
    let first ← register t
    let others ← registerAll ts
    intern (.tuple (first :: others))
  | .func params result =>
    let params ← registerAll params
    let result ← register result
    intern (.func params result)
  | .ref inner m l => intern (.ref (← register inner) m l)
  | .named name args => intern (.named name (← registerAll args))

def registerAll : List Ty → RegistryM (List Ty)
  | [] => return []
  | t :: ts => do
    let first ← register t
    let others ← registerAll ts
    return first :: others

end

def newVar (hint : String) (rigid : Bool := false) : RegistryM TypeVar := do
  let r ← get
  let v := { id := r.size, hint, rigid, registry := r.number }
  set { r with entries := r.entries.push (.of (.var v)) }
  return v

def fresh : RegistryM Ty := do return .var (← newVar "")

/-- The type of range expressions. -/
def range (elem : Ty) : RegistryM Ty := register (.named "Range" [elem])

/-! ## Bindings -/

def binding? (r : Registry) (v : TypeVar) : Option Ty := r.bindings.lookup v.id

/-- Enough for every walk along bindings: no variable comes twice. -/
def reach (r : Registry) : Nat := r.bindings.length + 1

/-- Follows a variable for at most so many steps. -/
def follow (r : Registry) : (steps : Nat) → Ty → Ty
  | 0, t => t
  | steps + 1, t =>
    match t with
    | .var v =>
      match r.binding? v with
      | some bound => follow r steps bound
      | none => t
    | t => t

/-- What a type stands for at its outermost level. -/
def head (r : Registry) (t : Ty) : Ty := r.follow r.reach t

/-- Replaces bound variables, to the given depth of bindings inside bindings. -/
def expand (r : Registry) : (depth : Nat) → Ty → Ty
  | 0, t => t
  | depth + 1, t =>
    t.mapVars fun v =>
      match r.binding? v with
      | some bound => expand r depth bound
      | none => .var v

/-- The type without its bound variables. -/
def applied (r : Registry) (t : Ty) : Ty := r.expand r.reach t

/-- Registers a type, except for a variable on its own. -/
def registerTerm : Ty → RegistryM Ty
  | .var v => return .var v
  | t => register t

/-- Replaces every bound variable of a type and registers the result. -/
def resolve (t : Ty) : RegistryM Ty := do registerTerm ((← get).applied t)

/-- Whether some variable of a type, in what it stands for, satisfies `p`. -/
def anyUnbound (r : Registry) (p : TypeVar → Bool) : (depth : Nat) → Ty → Bool
  | 0, _ => false
  | depth + 1, t =>
    t.anyVar fun v =>
      match r.binding? v with
      | some bound => anyUnbound r p depth bound
      | none => p v

/-- Whether a type still mentions an unbound variable that is not rigid. -/
def hasFree (r : Registry) (t : Ty) : Bool := r.anyUnbound (!·.rigid) r.reach t

/-- Whether an unbound variable appears inside a type. -/
def occurs (r : Registry) (v : TypeVar) (t : Ty) : Bool := r.anyUnbound (· == v) r.reach t

/-! ## Instances -/

/-- New variables in place of parameters, with the hints of those. -/
def freshen : List TypeVar → RegistryM (List (TypeVar × Ty))
  | [] => return []
  | p :: ps => do
    let v ← newVar p.hint
    return (p, .var v) :: (← freshen ps)

/-- Replaces parameters in what a type stands for; of two entries for one the later counts. -/
def substitute (subst : List (TypeVar × Ty)) (t : Ty) : RegistryM Ty := do
  let r ← get
  registerTerm ((r.applied t).mapVars fun v => (subst.reverse.lookup v).getD (.var v))

/-- A copy of a type with a new variable in place of each parameter. -/
def instantiate (t : Ty) (params : List TypeVar) : RegistryM Ty := do
  if params.isEmpty then return t
  let subst ← freshen params
  substitute subst t

/-- Copies of several types that share their new variables. -/
def instantiateAll (ts : List Ty) (params : List TypeVar) : RegistryM (List Ty) := do
  if params.isEmpty then return ts
  let subst ← freshen params
  ts.mapM (substitute subst)

/-- A type with its kind and id, for debugging. -/
def describe (r : Registry) (t : Ty) : String := s!"{t.kindName}#{r.idOf t}({t.text})"

end Registry

end UnitCheck
