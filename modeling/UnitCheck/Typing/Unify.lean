import UnitCheck.Diagnostic
import UnitCheck.Typing.Registry

/-!
# Unification

Unification makes two types equal by binding variables. What it has bound before it fails stays
bound. Lifetimes do not count, the invalid type goes with anything, and a rigid variable goes only
with itself and with variables that are not rigid.

The walks below go down the parts of types, through bindings. No type is a part of itself, so along
one path every registered type comes at most once: the number of registered types bounds the depth.
-/

namespace UnitCheck

inductive UnifyFault where
  | mismatch (a b : Ty)
  | recursive (v : TypeVar) (t : Ty)
  deriving Repr, Inhabited

namespace UnifyFault

def message : UnifyFault → String
  | mismatch a b => s!"cannot unify {a.text} with {b.text}"
  | recursive v t => s!"recursive type: {v.text} occurs in {t.text}"

def code : UnifyFault → Code
  | mismatch .. => .typeMismatch
  | recursive .. => .recursiveType

def diagnostic (f : UnifyFault) (pos : Position) : Diagnostic := Diagnostic.mk' f.code pos f.message

end UnifyFault

/-- Computations that bind variables; a failure keeps the registry it has reached. -/
abbrev UnifyM := ExceptT UnifyFault RegistryM

namespace Registry

/-- A depth that no type of the registry exceeds. -/
def depth (r : Registry) : Nat := r.size + 1

def failMismatch {α : Type} (a b : Ty) : UnifyM α := do
  let a ← resolve a
  let b ← resolve b
  throw (.mismatch a b)

/-- Binds an unbound variable, unless the type mentions it. -/
def bind (v : TypeVar) (t : Ty) : UnifyM Ty := do
  if (← getThe Registry).occurs v t then
    throw (.recursive v (← resolve t))
  else
    modifyThe Registry fun r => { r with bindings := (v.id, t) :: r.bindings }
    return t

def unifyAll (part : Ty → Ty → UnifyM Ty) : List Ty → List Ty → UnifyM (List Ty)
  | a :: as, b :: bs => do
    let first ← part a b
    let others ← unifyAll part as bs
    return first :: others
  | _, _ => return []

def unifyParts (part : Ty → Ty → UnifyM Ty) (a b : Ty) : UnifyM Ty := do
  match a, b with
  | .array x m, .array y n =>
    if m = n then
      let elem ← part x y
      register (.array elem m)
    else failMismatch a b
  | .tuple xs, .tuple ys =>
    if xs.length = ys.length then
      let elems ← unifyAll part xs ys
      register (.tuple elems)
    else failMismatch a b
  | .func xs x, .func ys y =>
    if xs.length = ys.length then
      let params ← unifyAll part xs ys
      let result ← part x y
      register (.func params result)
    else failMismatch a b
  | .ref x m l, .ref y n k =>
    if m = n then
      let inner ← part x y
      register (.ref inner m (l <|> k))
    else failMismatch a b
  | .named x xs, .named y ys =>
    if x = y ∧ xs.length = ys.length then
      let args ← unifyAll part xs ys
      register (.named x args)
    else failMismatch a b
  | _, _ => failMismatch a b

/-- One level of unification, with the unifier of the parts. -/
def unifyLevel (part : Ty → Ty → UnifyM Ty) (a b : Ty) : UnifyM Ty := do
  let r ← getThe Registry
  let a := r.head a
  let b := r.head b
  if a = b then return a
  if a.isInvalid || b.isInvalid then return .invalid
  match a, b with
  | .var v, .var w =>
    if !v.rigid then bind v b else if !w.rigid then bind w a else failMismatch a b
  | .var v, _ => if !v.rigid then bind v b else failMismatch a b
  | _, .var w => if !w.rigid then bind w a else failMismatch a b
  | _, _ => unifyParts part a b

/-- Unifies types of at most the given depth. -/
def unifyWithin : (depth : Nat) → Ty → Ty → UnifyM Ty
  | 0, a, b => failMismatch a b
  | depth + 1, a, b => unifyLevel (unifyWithin depth) a b

/-- The type that two types have in common, binding variables as needed. -/
def unify (a b : Ty) : UnifyM Ty := do unifyWithin (← getThe Registry).depth a b

/-! ## Identity -/

def identicalAll (part : Ty → Ty → Bool) : List Ty → List Ty → Bool
  | [], [] => true
  | a :: as, b :: bs => part a b && identicalAll part as bs
  | _, _ => false

/-- Whether two types of at most the given depth are identical. -/
def identicalWithin (r : Registry) : (depth : Nat) → Ty → Ty → Bool
  | 0, _, _ => false
  | depth + 1, a, b =>
    let a := r.head a
    let b := r.head b
    a == b || a.isInvalid || b.isInvalid ||
      match a, b with
      | .array x m, .array y n => m == n && identicalWithin r depth x y
      | .tuple xs, .tuple ys => identicalAll (identicalWithin r depth) xs ys
      | .func xs x, .func ys y =>
        identicalAll (identicalWithin r depth) xs ys && identicalWithin r depth x y
      | .ref x m _, .ref y n _ => m == n && identicalWithin r depth x y
      | .named x xs, .named y ys => x == y && identicalAll (identicalWithin r depth) xs ys
      | _, _ => false

/-- Equality of what two types stand for, except for lifetimes; the invalid type equals anything. -/
def identical (r : Registry) (a b : Ty) : Bool := r.identicalWithin r.depth a b

end Registry

end UnitCheck
