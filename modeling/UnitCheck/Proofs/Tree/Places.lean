import UnitCheck.Text.Letter
import UnitCheck.Tree.Item

/-!
# Places in trees

`Item.Placed A` — every part of an item stands at a place that is covered by the sites `A`, and what
the item declares has one of their names. The same is said of annotations, expressions and patterns;
names inside of those can be any, since whatever they are, they are looked up.
-/

namespace UnitCheck

/-- Where the parts of a unit may stand, and what it may declare. -/
structure Sites where
  covers : Position → Prop
  names : String → Prop
  /-- Whether each step has to leave every type that it declares with its name. -/
  settled : Prop

/-- Nothing is asked for. -/
def Sites.any : Sites := ⟨fun _ => True, fun _ => True, True⟩

/-- Places that satisfy `P`, and names as they are written in a unit. -/
def Sites.named (P : Position → Prop) : Sites := ⟨P, fun name => Text.isName name = true, True⟩

/-- The same places and names, where a step may leave a type without its name. -/
def Sites.loose (A : Sites) : Sites := { A with settled := False }

variable (A : Sites)

/-! ## Annotations, expressions and patterns -/

structure Label.Placed (l : Label) : Prop where
  pos : A.covers l.pos
  name : A.names l.text

mutual

@[simp] def TypeExpr.Placed : TypeExpr → Prop
  | .named _ args pos => A.covers pos ∧ TypeExpr.AllPlaced args
  | .array elem _ pos => A.covers pos ∧ elem.Placed
  | .tuple elems pos => A.covers pos ∧ TypeExpr.AllPlaced elems
  | .func params result pos =>
    A.covers pos ∧ TypeExpr.AllPlaced params ∧ TypeExpr.ResultPlaced result
  | .ref inner _ _ pos => A.covers pos ∧ inner.Placed

@[simp] def TypeExpr.AllPlaced : List TypeExpr → Prop
  | [] => True
  | t :: rest => t.Placed ∧ TypeExpr.AllPlaced rest

@[simp] def TypeExpr.ResultPlaced : Option TypeExpr → Prop
  | none => True
  | some t => t.Placed

end

mutual

@[simp] def Expr.Placed : Expr → Prop
  | .literal _ pos => A.covers pos
  | .ident _ pos => A.covers pos
  | .path _ pos => A.covers pos
  | .binary _ l r pos => A.covers pos ∧ l.Placed ∧ r.Placed
  | .unary _ x pos => A.covers pos ∧ x.Placed
  | .call callee args pos => A.covers pos ∧ callee.Placed ∧ Expr.AllPlaced args
  | .methodCall receiver _ args pos => A.covers pos ∧ receiver.Placed ∧ Expr.AllPlaced args
  | .member target _ pos => A.covers pos ∧ target.Placed
  | .index target subscript pos => A.covers pos ∧ target.Placed ∧ subscript.Placed
  | .array elems pos => A.covers pos ∧ Expr.AllPlaced elems
  | .tuple elems pos => A.covers pos ∧ Expr.AllPlaced elems
  | .struct _ inits pos => A.covers pos ∧ Expr.InitsPlaced inits
  | .cast x type pos => A.covers pos ∧ x.Placed ∧ type.Placed A

@[simp] def Expr.AllPlaced : List Expr → Prop
  | [] => True
  | e :: rest => e.Placed ∧ Expr.AllPlaced rest

@[simp] def Expr.InitsPlaced : List (Label × Expr) → Prop
  | [] => True
  | (label, e) :: rest => A.covers label.pos ∧ e.Placed ∧ Expr.InitsPlaced rest

end

mutual

@[simp] def Pattern.Placed : Pattern → Prop
  | .wildcard pos => A.covers pos
  | .literal _ pos => A.covers pos
  | .binding _ _ pos => A.covers pos
  | .tuple elems pos => A.covers pos ∧ Pattern.AllPlaced elems
  | .variant _ elems pos => A.covers pos ∧ Pattern.AllPlaced elems

@[simp] def Pattern.AllPlaced : List Pattern → Prop
  | [] => True
  | p :: rest => p.Placed ∧ Pattern.AllPlaced rest

end

/-! ## Declarations -/

structure DeclHead.Placed (d : DeclHead) : Prop where
  pos : A.covers d.pos
  label : d.label.Placed A

structure LetDecl.Placed (d : LetDecl) : Prop where
  pos : A.covers d.pos
  label : d.label.Placed A
  type : ∀ t ∈ d.type, t.Placed A
  value : ∀ e ∈ d.value, e.Placed A

structure ConstDecl.Placed (d : ConstDecl) : Prop where
  head : d.head.Placed A
  type : ∀ t ∈ d.type, t.Placed A
  value : ∀ e ∈ d.value, e.Placed A

structure Param.Placed (p : Param) : Prop where
  label : p.label.Placed A
  type : ∀ t ∈ p.type, t.Placed A

structure FunctionHead.Placed (f : FunctionHead) : Prop where
  head : f.head.Placed A
  typeParams : ∀ l ∈ f.typeParams, l.Placed A
  params : ∀ p ∈ f.params, p.Placed A
  result : ∀ t ∈ f.result, t.Placed A

structure FieldDecl.Placed (f : FieldDecl) : Prop where
  label : f.label.Placed A
  type : f.type.Placed A

structure StructDecl.Placed (d : StructDecl) : Prop where
  head : d.head.Placed A
  typeParams : ∀ l ∈ d.typeParams, l.Placed A
  fields : ∀ f ∈ d.fields, f.Placed A

structure ClassHead.Placed (d : ClassHead) : Prop where
  head : d.head.Placed A
  fields : ∀ f ∈ d.fields, f.Placed A

structure VariantDecl.Placed (d : VariantDecl) : Prop where
  label : d.label.Placed A
  payload : ∀ t ∈ d.payload, t.Placed A

structure EnumDecl.Placed (d : EnumDecl) : Prop where
  head : d.head.Placed A
  variants : ∀ v ∈ d.variants, v.Placed A

structure ImplHead.Placed (d : ImplHead) : Prop where
  pos : A.covers d.pos
  target : d.target.Placed A

/-! ## Items -/

mutual

@[simp] def Item.Placed : Item → Prop
  | .bad pos _ => A.covers pos
  | .letVar d => d.Placed A
  | .constant d => d.Placed A
  | .function f => f.Placed
  | .structType d => d.Placed A
  | .classType d functions => d.Placed A ∧ Function.AllPlaced functions
  | .enumType d => d.Placed A
  | .traitType d functions => d.Placed A ∧ Function.AllPlaced functions
  | .implementation d functions => d.Placed A ∧ Function.AllPlaced functions
  | .moduleBlock d body => d.Placed A ∧ Item.AllPlaced body
  | .use d => A.covers d.pos
  | .expression e => e.Placed A
  | .returnWith pos value => A.covers pos ∧ ∀ e ∈ value, e.Placed A
  | .ifElse pos cond thenBody elseBody =>
    A.covers pos ∧ cond.Placed A ∧ Item.AllPlaced thenBody ∧ Item.BodyPlaced elseBody
  | .whileLoop pos cond body => A.covers pos ∧ cond.Placed A ∧ Item.AllPlaced body
  | .forEach pos var iter body => A.covers pos ∧ var.Placed A ∧ iter.Placed A ∧ Item.AllPlaced body
  | .loop pos body => A.covers pos ∧ Item.AllPlaced body
  | .breakLoop pos => A.covers pos
  | .continueLoop pos => A.covers pos
  | .matchOn pos scrutinee arms => A.covers pos ∧ scrutinee.Placed A ∧ Arm.AllPlaced arms
  | .block pos body => A.covers pos ∧ Item.AllPlaced body

@[simp] def Item.AllPlaced : List Item → Prop
  | [] => True
  | i :: rest => i.Placed ∧ Item.AllPlaced rest

@[simp] def Item.BodyPlaced : Option (List Item) → Prop
  | none => True
  | some body => Item.AllPlaced body

@[simp] def Function.Placed : Function → Prop
  | .mk head body => head.Placed A ∧ Item.BodyPlaced body

@[simp] def Function.AllPlaced : List Function → Prop
  | [] => True
  | f :: rest => f.Placed ∧ Function.AllPlaced rest

@[simp] def Arm.Placed : Arm → Prop
  | .mk pattern guard body => pattern.Placed A ∧ (∀ e ∈ guard, e.Placed A) ∧ Item.AllPlaced body

@[simp] def Arm.AllPlaced : List Arm → Prop
  | [] => True
  | a :: rest => a.Placed ∧ Arm.AllPlaced rest

end

/-! ## Lists, and the place of the whole -/

variable {A}

theorem Item.allPlaced_append {earlier later : List Item} :
    Item.AllPlaced A (earlier ++ later) ↔ Item.AllPlaced A earlier ∧ Item.AllPlaced A later := by
  induction earlier with
  | nil => simp
  | cons i earlier ih => simp [ih, and_assoc]

theorem Function.allPlaced_iff {functions : List Function} :
    Function.AllPlaced A functions ↔ ∀ f ∈ functions, f.Placed A := by
  induction functions with
  | nil => simp
  | cons f rest ih => rw [AllPlaced, ih, List.forall_mem_cons]

theorem Function.Placed.head_placed {f : Function} (h : f.Placed A) : f.head.Placed A := by
  cases f with
  | mk head body =>
    exact h.1

/-- A call stands where its callee does, so its place is found below. -/
theorem Expr.Placed.at_pos {e : Expr} (h : e.Placed A) : A.covers e.pos := by
  induction e using Expr.pos.induct with
  | case6 callee args pos ih =>
    exact ih h.2.1
  | _ => simp_all [Expr.pos]

theorem Item.Placed.at_pos {i : Item} (h : i.Placed A) : A.covers i.pos := by
  cases i with
  | function f =>
    exact h.head_placed.head.pos
  | expression e =>
    rw [Item.Placed] at h
    exact h.at_pos
  | letVar d =>
    exact h.pos
  | constant d | structType d | enumType d =>
    exact h.head.pos
  | classType d functions =>
    exact h.1.head.pos
  | traitType d functions | implementation d functions | moduleBlock d body =>
    exact h.1.pos
  | _ => simp_all [Item.pos]

/-! ## Where nothing is asked for -/

@[simp] theorem Sites.covers_any (pos : Position) : Sites.any.covers pos := trivial

@[simp] theorem Label.placed_any (l : Label) : l.Placed .any := ⟨trivial, trivial⟩

@[simp] theorem DeclHead.placed_any (d : DeclHead) : d.Placed .any := ⟨trivial, d.label.placed_any⟩

mutual

@[simp] theorem TypeExpr.placed_any (t : TypeExpr) : t.Placed .any := by
  match t with
  | .named _ args _ => simp [TypeExpr.allPlaced_any args]
  | .array elem _ _ => simp [elem.placed_any]
  | .tuple elems _ => simp [TypeExpr.allPlaced_any elems]
  | .func params result _ => simp [TypeExpr.allPlaced_any params, TypeExpr.resultPlaced_any result]
  | .ref inner _ _ _ => simp [inner.placed_any]

theorem TypeExpr.allPlaced_any (ts : List TypeExpr) : TypeExpr.AllPlaced .any ts := by
  match ts with
  | [] => simp
  | t :: rest => simp [t.placed_any, TypeExpr.allPlaced_any rest]

theorem TypeExpr.resultPlaced_any (result : Option TypeExpr) :
    TypeExpr.ResultPlaced .any result := by
  match result with
  | none => simp
  | some t => simp [t.placed_any]

end

mutual

@[simp] theorem Expr.placed_any (e : Expr) : e.Placed .any := by
  match e with
  | .literal .. | .ident .. | .path .. => simp
  | .binary _ l r _ => simp [l.placed_any, r.placed_any]
  | .unary _ x _ | .cast x _ _ | .member x _ _ => simp [x.placed_any]
  | .call x args _ | .methodCall x _ args _ => simp [x.placed_any, Expr.allPlaced_any args]
  | .index target subscript _ => simp [target.placed_any, subscript.placed_any]
  | .array elems _ | .tuple elems _ => simp [Expr.allPlaced_any elems]
  | .struct _ inits _ => simp [Expr.initsPlaced_any inits]

theorem Expr.allPlaced_any (es : List Expr) : Expr.AllPlaced .any es := by
  match es with
  | [] => simp
  | e :: rest => simp [e.placed_any, Expr.allPlaced_any rest]

theorem Expr.initsPlaced_any (inits : List (Label × Expr)) : Expr.InitsPlaced .any inits := by
  match inits with
  | [] => simp
  | (_, e) :: rest => simp [e.placed_any, Expr.initsPlaced_any rest]

end

mutual

@[simp] theorem Pattern.placed_any (p : Pattern) : p.Placed .any := by
  match p with
  | .wildcard _ | .literal .. | .binding .. => simp
  | .tuple elems _ | .variant _ elems _ => simp [Pattern.allPlaced_any elems]

theorem Pattern.allPlaced_any (ps : List Pattern) : Pattern.AllPlaced .any ps := by
  match ps with
  | [] => simp
  | p :: rest => simp [p.placed_any, Pattern.allPlaced_any rest]

end

@[simp] theorem LetDecl.placed_any (d : LetDecl) : d.Placed .any := by constructor <;> simp

@[simp] theorem ConstDecl.placed_any (d : ConstDecl) : d.Placed .any := by constructor <;> simp

@[simp] theorem Param.placed_any (p : Param) : p.Placed .any := by constructor <;> simp

@[simp] theorem FunctionHead.placed_any (f : FunctionHead) : f.Placed .any := by
  constructor <;> simp

@[simp] theorem FieldDecl.placed_any (f : FieldDecl) : f.Placed .any := by constructor <;> simp

@[simp] theorem StructDecl.placed_any (d : StructDecl) : d.Placed .any := by constructor <;> simp

@[simp] theorem ClassHead.placed_any (d : ClassHead) : d.Placed .any := by constructor <;> simp

@[simp] theorem VariantDecl.placed_any (d : VariantDecl) : d.Placed .any := by constructor <;> simp

@[simp] theorem EnumDecl.placed_any (d : EnumDecl) : d.Placed .any := by constructor <;> simp

@[simp] theorem ImplHead.placed_any (d : ImplHead) : d.Placed .any := by constructor <;> simp

mutual

@[simp] theorem Item.placed_any (i : Item) : i.Placed .any := by
  match i with
  | .bad .. | .letVar _ | .constant _ | .structType _ | .enumType _ | .use _ | .expression _
  | .returnWith .. | .breakLoop _ | .continueLoop _ => simp
  | .function f => simp [f.placed_any]
  | .classType _ functions | .traitType _ functions | .implementation _ functions =>
    simp [Function.allPlaced_any functions]
  | .moduleBlock _ body | .whileLoop _ _ body | .forEach _ _ _ body | .loop _ body |
    .block _ body =>
    simp [Item.allPlaced_any body]
  | .ifElse _ _ thenBody elseBody =>
    simp [Item.allPlaced_any thenBody, Item.bodyPlaced_any elseBody]
  | .matchOn _ _ arms => simp [Arm.allPlaced_any arms]

@[simp] theorem Item.allPlaced_any (items : List Item) : Item.AllPlaced .any items := by
  match items with
  | [] => simp
  | i :: rest => simp [i.placed_any, Item.allPlaced_any rest]

@[simp] theorem Item.bodyPlaced_any (body : Option (List Item)) : Item.BodyPlaced .any body := by
  match body with
  | none => simp
  | some items => simp [Item.allPlaced_any items]

theorem Function.placed_any (f : Function) : f.Placed .any := by
  match f with
  | .mk _ body => simp [Item.bodyPlaced_any body]

theorem Function.allPlaced_any (functions : List Function) : Function.AllPlaced .any functions := by
  match functions with
  | [] => simp
  | f :: rest => simp [f.placed_any, Function.allPlaced_any rest]

@[simp] theorem Arm.placed_any (a : Arm) : a.Placed .any := by
  match a with
  | .mk _ _ body => simp [Item.allPlaced_any body]

@[simp] theorem Arm.allPlaced_any (arms : List Arm) : Arm.AllPlaced .any arms := by
  match arms with
  | [] => simp
  | a :: rest => simp [a.placed_any, Arm.allPlaced_any rest]

end

end UnitCheck
