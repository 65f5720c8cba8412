import UnitCheck.Typing.Unify

/-!
# Assignability

A value may stand where a wider type is expected: an `int` for a `float`, a mutable reference for a
shared one, an array for one without a length, `never` for anything, and tuples element by element.
-/

namespace UnitCheck

namespace Registry

mutual

/-- Assignability of types without bound variables. -/
def widens (r : Registry) : (dst src : Ty) → Bool
  | .tuple ds, src =>
    .tuple ds == src || src.isInvalid || src == .never ||
      match src with
      | .tuple ss => widensAll r ds ss
      | _ => false
  | dst, src =>
    dst == src || dst.isInvalid || src.isInvalid || src == .never ||
      match dst, src with
      | .basic d, src => d == .float && src == .int
      | .ref d m _, .ref s n _ => (!m || n) && r.identical d s
      | .ref .., _ => false
      | .array d m, .array s n => (m.isNone || m == n) && r.identical d s
      | .array .., _ => false
      | dst, src => r.identical dst src

def widensAll (r : Registry) : (dst src : List Ty) → Bool
  | [], [] => true
  | d :: ds, s :: ss => widens r d s && widensAll r ds ss
  | _, _ => false

end

/-- Whether a value of type `src` may be used where `dst` is expected. Binds no variable. -/
def assignable (dst src : Ty) : RegistryM Bool := do
  let dst ← resolve dst
  let src ← resolve src
  return (← get).widens dst src

/-- Runs a check on each pair of two lists of equal length. -/
def unifyEach (part : Ty → Ty → UnifyM Unit) : List Ty → List Ty → UnifyM Unit
  | d :: ds, s :: ss => do
    part d s
    unifyEach part ds ss
  | _, _ => return ()

/-- One level of `unifyAssignable`, with the check of tuple elements. -/
def unifyAssignableLevel (part : Ty → Ty → UnifyM Unit) (dst src : Ty) : UnifyM Unit := do
  let dst ← resolve dst
  let src ← resolve src
  if ← assignable dst src then return ()
  match dst, src with
  | .ref d m _, .ref s n _ =>
    if !m || n then discard (unify d s) else discard (unify dst src)
  | .array d m, .array s n =>
    if m.isNone || m == n then discard (unify d s) else discard (unify dst src)
  | .tuple ds, .tuple ss =>
    if ds.length = ss.length then unifyEach part ds ss else discard (unify dst src)
  | dst, src => discard (unify dst src)

def unifyAssignableWithin : (depth : Nat) → (dst src : Ty) → UnifyM Unit
  | 0, dst, src => failMismatch dst src
  | depth + 1, dst, src => unifyAssignableLevel (unifyAssignableWithin depth) dst src

/-- Assignability for types that may mention free variables: the outer level widens, the parts are
unified. -/
def unifyAssignable (dst src : Ty) : UnifyM Unit := do
  unifyAssignableWithin (← getThe Registry).depth dst src

/-! ## Copies -/

/-- Whether values of a type of at most the given depth are copied. -/
def isCopyWithin (r : Registry) : (depth : Nat) → Ty → Bool
  | 0, _ => false
  | depth + 1, t =>
    match r.head t with
    | .basic _ => true
    | .func .. => true
    | .ref _ m _ => !m
    | .array elem _ => isCopyWithin r depth elem
    | .tuple elems => elems.all (isCopyWithin r depth)
    | .named .. => false
    | .var v => !v.rigid

/-- Whether values of a type are copied rather than moved. A variable that is not known yet counts
as copied, so that it raises no complaint about moves. -/
def isCopy (r : Registry) (t : Ty) : Bool := r.isCopyWithin r.depth t

end Registry

end UnitCheck
