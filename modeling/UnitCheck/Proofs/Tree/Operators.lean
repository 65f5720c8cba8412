import UnitCheck.Tree.Item

/-!
# Operators in trees

`Expr.Fits` and `Item.Fits` — every operator stands where it may: those of binary expressions are
binary operators, and those of prefix expressions are prefix operators. The types of trees do not
ask for this; every reader of trees has to see to it.
-/

namespace UnitCheck

mutual

/-- Every operator in an expression stands where it may. -/
@[simp] def Expr.Fits : Expr → Prop
  | .binary op l r _ => op ∈ Operator.binary ∧ l.Fits ∧ r.Fits
  | .unary op x _ => op ∈ Operator.unary ∧ x.Fits
  | .call callee args _ => callee.Fits ∧ Expr.AllFit args
  | .methodCall receiver _ args _ => receiver.Fits ∧ Expr.AllFit args
  | .member target _ _ => target.Fits
  | .index target subscript _ => target.Fits ∧ subscript.Fits
  | .array elems _ => Expr.AllFit elems
  | .tuple elems _ => Expr.AllFit elems
  | .struct _ inits _ => Expr.InitsFit inits
  | .cast x _ _ => x.Fits
  | .literal .. | .ident .. | .path .. => True

@[simp] def Expr.AllFit : List Expr → Prop
  | [] => True
  | e :: rest => e.Fits ∧ Expr.AllFit rest

@[simp] def Expr.InitsFit : List (Label × Expr) → Prop
  | [] => True
  | (_, e) :: rest => e.Fits ∧ Expr.InitsFit rest

end

mutual

/-- Every operator in an item stands where it may. -/
@[simp] def Item.Fits : Item → Prop
  | .letVar d => ∀ e ∈ d.value, e.Fits
  | .constant d => ∀ e ∈ d.value, e.Fits
  | .function f => f.Fits
  | .classType _ functions => Function.AllFit functions
  | .traitType _ functions => Function.AllFit functions
  | .implementation _ functions => Function.AllFit functions
  | .moduleBlock _ body => Item.AllFit body
  | .expression e => e.Fits
  | .returnWith _ value => ∀ e ∈ value, e.Fits
  | .ifElse _ cond thenBody elseBody => cond.Fits ∧ Item.AllFit thenBody ∧ Item.BodyFits elseBody
  | .whileLoop _ cond body => cond.Fits ∧ Item.AllFit body
  | .forEach _ _ iter body => iter.Fits ∧ Item.AllFit body
  | .loop _ body => Item.AllFit body
  | .matchOn _ scrutinee arms => scrutinee.Fits ∧ Arm.AllFit arms
  | .block _ body => Item.AllFit body
  | .bad .. | .structType _ | .enumType _ | .use _ | .breakLoop _ | .continueLoop _ => True

@[simp] def Item.AllFit : List Item → Prop
  | [] => True
  | i :: rest => i.Fits ∧ Item.AllFit rest

@[simp] def Item.BodyFits : Option (List Item) → Prop
  | none => True
  | some body => Item.AllFit body

@[simp] def Function.Fits : Function → Prop
  | .mk _ body => Item.BodyFits body

@[simp] def Function.AllFit : List Function → Prop
  | [] => True
  | f :: rest => f.Fits ∧ Function.AllFit rest

@[simp] def Arm.Fits : Arm → Prop
  | .mk _ guard body => (∀ e ∈ guard, e.Fits) ∧ Item.AllFit body

@[simp] def Arm.AllFit : List Arm → Prop
  | [] => True
  | a :: rest => a.Fits ∧ Arm.AllFit rest

end

theorem Arm.allFit_append {earlier later : List Arm} :
    Arm.AllFit (earlier ++ later) ↔ Arm.AllFit earlier ∧ Arm.AllFit later := by
  induction earlier with
  | nil => simp
  | cons a earlier ih => simp [ih, and_assoc]

theorem Item.allFit_append {earlier later : List Item} :
    Item.AllFit (earlier ++ later) ↔ Item.AllFit earlier ∧ Item.AllFit later := by
  induction earlier with
  | nil => simp
  | cons i earlier ih => simp [ih, and_assoc]

end UnitCheck
