/-!
# Types

Types are terms. A variable stands for a type that is not known yet and is filled in by unification;
a rigid one stands for a type parameter inside its own declaration and is never filled in. The type
`invalid` is given to what is broken, so that one mistake is reported once.
-/

namespace UnitCheck

inductive Basic where
  | invalid | int | float | bool | char | string | unit | never
  deriving Repr, DecidableEq, Inhabited

namespace Basic

def text : Basic → String
  | invalid => "error"
  | int => "int"
  | float => "float"
  | bool => "bool"
  | char => "char"
  | string => "string"
  | unit => "()"
  | never => "never"

/-- The basic types in the order in which every registry holds them. -/
def all : List Basic := [invalid, int, float, bool, char, string, unit, never]

/-- The basic type that a name in a unit stands for. -/
def ofName? : String → Option Basic
  | "int" => some int
  | "float" => some float
  | "bool" => some bool
  | "char" => some char
  | "string" => some string
  | "unit" => some unit
  | "never" => some never
  | _ => none

end Basic

structure TypeVar where
  id : Nat
  hint : String
  rigid : Bool
  /-- The number of the registry that made the variable. -/
  registry : Nat := 0
  deriving Repr, DecidableEq, Inhabited

def TypeVar.text (v : TypeVar) : String := if v.hint = "" then s!"?{v.id}" else v.hint

inductive Ty where
  | basic (b : Basic)
  /-- An array; `none` when its length is not declared. -/
  | array (elem : Ty) (length : Option Int)
  | tuple (elems : List Ty)
  | func (params : List Ty) (result : Ty)
  | ref (inner : Ty) (mutable : Bool) (lifetime : Option String)
  /-- A structure, class or enumeration, or `Range`. -/
  | named (name : String) (args : List Ty)
  | var (v : TypeVar)
  deriving Repr

namespace Ty

abbrev invalid : Ty := basic .invalid

abbrev int : Ty := basic .int

abbrev float : Ty := basic .float

abbrev bool : Ty := basic .bool

abbrev char : Ty := basic .char

abbrev string : Ty := basic .string

abbrev unit : Ty := basic .unit

abbrev never : Ty := basic .never

instance : Inhabited Ty := ⟨invalid⟩

/-! ## Equality -/

mutual

def beq : Ty → Ty → Bool
  | basic a, basic b => a == b
  | array a m, array b n => beq a b && m == n
  | tuple as, tuple bs => beqAll as bs
  | func as a, func bs b => beqAll as bs && beq a b
  | ref a m l, ref b n k => beq a b && m == n && l == k
  | named x as, named y bs => x == y && beqAll as bs
  | var v, var w => v == w
  | _, _ => false

def beqAll : List Ty → List Ty → Bool
  | [], [] => true
  | a :: as, b :: bs => beq a b && beqAll as bs
  | _, _ => false

end

mutual

theorem beq_iff (a b : Ty) : beq a b = true ↔ a = b := by
  match a with
  | basic _ => cases b <;> simp [beq]
  | array x _ => cases b <;> simp [beq, beq_iff x]
  | tuple xs => cases b <;> simp [beq, beqAll_iff xs]
  | func xs x => cases b <;> simp [beq, beqAll_iff xs, beq_iff x]
  | ref x _ _ => cases b <;> simp [beq, beq_iff x, and_assoc]
  | named _ xs => cases b <;> simp [beq, beqAll_iff xs]
  | var _ => cases b <;> simp [beq]

theorem beqAll_iff (as bs : List Ty) : beqAll as bs = true ↔ as = bs := by
  match as with
  | [] => cases bs <;> simp [beqAll]
  | x :: xs => cases bs <;> simp [beqAll, beq_iff x, beqAll_iff xs]

end

instance : DecidableEq Ty := fun a b => decidable_of_iff (beq a b = true) (beq_iff a b)

/-! ## Text -/

mutual

def text : Ty → String
  | basic b => b.text
  | array elem none => "[" ++ elem.text ++ "]"
  | array elem (some n) => "[" ++ elem.text ++ "; " ++ toString n ++ "]"
  | tuple elems => "(" ++ ", ".intercalate (texts elems) ++ ")"
  | func params result => "fn(" ++ ", ".intercalate (texts params) ++ ") -> " ++ result.text
  | ref inner mutable lifetime =>
    "&" ++ (match lifetime with
      | some l => "'" ++ l ++ " "
      | none => "") ++ (if mutable then "mut " else "") ++ inner.text
  | named name [] => name
  | named name (a :: args) => name ++ "<" ++ ", ".intercalate (a.text :: texts args) ++ ">"
  | var v => v.text

def texts : List Ty → List String
  | [] => []
  | t :: ts => t.text :: texts ts

end

def kindName : Ty → String
  | basic _ => "*types.Basic"
  | array .. => "*types.Array"
  | tuple _ => "*types.Tuple"
  | func .. => "*types.Func"
  | ref .. => "*types.Reference"
  | named .. => "*types.Named"
  | var _ => "*types.Var"

/-! ## Size -/

mutual

/-- The number of types that a type is made of, itself among them. -/
def size : Ty → Nat
  | array elem _ => elem.size + 1
  | tuple elems => sizeAll elems + 1
  | func params result => sizeAll params + result.size + 1
  | ref inner _ _ => inner.size + 1
  | named _ args => sizeAll args + 1
  | basic _ | var _ => 1

def sizeAll : List Ty → Nat
  | [] => 0
  | t :: ts => t.size + sizeAll ts

end

/-! ## Classes -/

def isInvalid (t : Ty) : Bool := t == invalid

def isNumeric (t : Ty) : Bool := t == int || t == float

mutual

def anyVar (p : TypeVar → Bool) : Ty → Bool
  | basic _ => false
  | array elem _ => elem.anyVar p
  | tuple elems => anyVarAll p elems
  | func params result => anyVarAll p params || result.anyVar p
  | ref inner _ _ => inner.anyVar p
  | named _ args => anyVarAll p args
  | var v => p v

def anyVarAll (p : TypeVar → Bool) : List Ty → Bool
  | [] => false
  | t :: ts => t.anyVar p || anyVarAll p ts

end

mutual

def mapVars (f : TypeVar → Ty) : Ty → Ty
  | basic b => basic b
  | array elem n => array (elem.mapVars f) n
  | tuple elems => tuple (mapVarsAll f elems)
  | func params result => func (mapVarsAll f params) (result.mapVars f)
  | ref inner m l => ref (inner.mapVars f) m l
  | named name args => named name (mapVarsAll f args)
  | var v => f v

def mapVarsAll (f : TypeVar → Ty) : List Ty → List Ty
  | [] => []
  | t :: ts => t.mapVars f :: mapVarsAll f ts

end

end Ty

end UnitCheck
