import UnitCheck.Checking.Members
import UnitCheck.Checking.Operators
import UnitCheck.Proofs.Checking.Annotations

/-!
# Operations on operands

Whatever the operands of an operation are, if checking them ends well then so does checking the
operation. `Proper` and `Operand.Proper` say that a check ends well on every good store; there is
one lemma for each way of putting checks together.
-/

namespace UnitCheck

open Checking

/-- On every good store, the check ends with a registered type. -/
def Proper (ρ : Rights) (x : CheckM Typed) : Prop :=
  ∀ {s : Store}, s.Good → Ends ρ s x (Store.Types ρ.sites)

structure Operand.Proper (ρ : Rights) (o : Operand) : Prop where
  pos : ρ.sites.covers o.pos
  read : UnitCheck.Proper ρ o.read
  take : UnitCheck.Proper ρ o.take

/-- The root of a place is seen, and the type of the place is registered. -/
structure Store.Places (s : Store) (p : Placed) : Prop where
  seen : s.table.SeesSymbol s.table.current p.root.id
  holds : s.registry.Holds p.type

/-- What looking for a place has to give. -/
def Store.PlacesOr (A : Sites) (s : Store) : Except (List Diagnostic) Placed → Prop
  | .ok p => s.Places p
  | .error faults => AllClean A faults

namespace Checking

section

variable {ρ : Rights} {here : Int} {s : Store} {pos : Position} {operand : Operand} {op : Operator}
  {p : Placed}

theorem value_proper (hpos : ρ.sites.covers pos) {check : CheckM Typed} (h : Proper ρ check) :
    (value pos check).Proper ρ :=
  ⟨hpos, h, h⟩

/-- Taking operands over gives registered types and diagnostics about the unit. -/
theorem takeAll_ends (h : s.Good) {os : List Operand} (hos : ∀ o ∈ os, o.Proper ρ) :
    Ends ρ s (takeAll os) fun s' out => (∀ t ∈ out.1, s'.Holds t) ∧ AllClean ρ.sites out.2 := by
  induction os generalizing s with
  | nil => exact .pure h ⟨by simp, allClean_nil⟩
  | cons o os ih =>
    rw [List.forall_mem_cons] at hos
    rw [takeAll]
    refine (hos.1.take h).bind fun t s' h' _ ht => ?_
    refine (ih h' hos.2).bind fun out s'' h'' he hout => ?_
    obtain ⟨types, faults⟩ := out
    exact .pure h'' ⟨List.forall_mem_cons.mpr ⟨he.holds ht.holds, hout.1⟩, ht.clean.append hout.2⟩

/-! ## Names and places -/

theorem accessKind_listed (take : Bool) (n : Int) :
    (if take then AccessKind.move else .read) ≠ .unlisted n := by
  cases take <;> simp

/-- The value of a symbol: its access is recorded in the scope that evaluates it. -/
theorem valueOf_ends (h : s.Good) (hmakes : ρ.makes here) {id : Nat}
    (hid : s.table.SeesSymbol s.table.current id) (hpos : ρ.sites.covers pos) (take : Bool) :
    Ends ρ s (valueOf here id pos take) (Store.Types ρ.sites) := by
  unfold valueOf
  refine (useSymbol_ends h hid).bind fun y s' h' _ hy => ?_
  split
  · exact .pure h' (.broken h' (allClean_mk' hpos _ rfl))
  split
  · exact .pure h' (.broken h' (allClean_mk' hpos _ rfl))
  next type htype =>
    refine .get ?_
    refine (access_ends h' hpos hy.seen (accessKind_listed _) hmakes).bind
      fun faults s'' h'' he hfaults => ?_
    split
    · have hheld := he.holds (hy.admits.holds type htype)
      exact (instantiate_ends h'' hheld _).bind fun t s₃ h₃ _ ht => .pure h₃ (.ok ht)
    · exact .pure h'' (.broken h'' hfaults)

theorem ident_proper (hmakes : ρ.makes here) (name : String) (hpos : ρ.sites.covers pos)
    (take : Bool) :
    Proper ρ (ident here name pos take) := by
  intro s h
  unfold ident
  refine (lookup_ends h name hpos).bind fun found s' h' _ hfound => ?_
  cases found with
  | error d => exact .pure h' (.broken h' (allClean_one hfound))
  | ok id => exact valueOf_ends h' hmakes hfound hpos take

theorem pathValue_proper (hmakes : ρ.makes here) (path : List String) (hpos : ρ.sites.covers pos) :
    Proper ρ (pathValue here path pos) := by
  intro s h
  unfold pathValue
  refine (resolvePath_ends h path hpos).bind fun found s' h' _ hfound => ?_
  cases found with
  | error d => exact .pure h' (.broken h' (allClean_one hfound))
  | ok id => exact valueOf_ends h' hmakes hfound hpos false

/-- The variable at the root of a place, or what is wrong with it. -/
theorem rootPlace_ends (h : s.Good) (name : String) (hpos : ρ.sites.covers pos) (write : Bool) :
    Ends ρ s (rootPlace name pos write) (Store.PlacesOr ρ.sites) := by
  unfold rootPlace
  refine (lookup_ends h name hpos).bind fun found s' h' _ hfound => ?_
  cases found with
  | error d => exact .pure h' (allClean_one hfound)
  | ok id =>
    refine (useSymbol_ends h' hfound).bind fun y s'' h'' _ hy => ?_
    split
    · exact .pure h'' (allClean_mk' hpos _ rfl)
    split
    · exact .pure h'' (allClean_mk' hpos _ rfl)
    split
    · exact .pure h'' (allClean_mk' hpos _ rfl)
    · next type htype => exact .pure h'' ⟨hy.seen, hy.admits.holds type htype⟩

theorem Places.mono {s' : Store} (h : s.Places p) (he : s.Evaluates ρ s') : s'.Places p := by
  refine ⟨?_, he.holds h.holds⟩
  rw [he.current]
  exact he.table.seesSymbol h.seen

theorem partPlace_ends {part : Ty → CheckM Typed} (hp : s.Places p)
    (hpart : ∀ t, s.Holds t → Ends ρ s (part t) (Store.Types ρ.sites)) :
    Ends ρ s (partPlace p part) (Store.PlacesOr ρ.sites) := by
  unfold partPlace
  refine (hpart p.type hp.holds).bind fun t s' h' he ht => ?_
  split
  · exact .pure h' ⟨(Places.mono hp he).seen, ht.holds⟩
  · exact .pure h' ht.clean

/-! ## Binary operators -/

section

variable (h : s.Good) {right : Operand} {t : Ty} {place : CheckM (Except (List Diagnostic) Placed)}
include h

theorem operatorMismatch_types (op : Operator) (hpos : ρ.sites.covers pos) (l r : Ty) :
    s.Types ρ.sites (operatorMismatch op pos l r) :=
  .failed h hpos _ rfl

theorem holds_widerNumeric (l r : Ty) : s.Holds (widerNumeric l r) := by
  unfold widerNumeric
  split
  · exact h.registry.basic .float
  · exact h.registry.basic .int

theorem unifyFree_ends {l r : Ty} (hl : s.Holds l) (hr : s.Holds r) :
    Ends ρ s (unifyFree l r) fun s' out => ∀ t, out = some t → s'.Holds t := by
  unfold unifyFree
  refine (hasFree_ends h l).bind fun free s' h' he _ => ?_
  refine (hasFree_ends h' r).bind fun free' s'' h'' he' _ => ?_
  have he₂ := he.trans he'
  split
  · refine (unify_ends h'' (he₂.holds hl) (he₂.holds hr)).bind fun out s₃ h₃ _ hout => ?_
    cases out with
    | ok t => exact .pure h₃ fun u hu => Option.some.inj hu ▸ hout t rfl
    | error e => exact .pure h₃ fun u hu => (by cases hu)
  · exact .pure h'' fun u hu => (by cases hu)

theorem arithmetic_ends (op : Operator) (hpos : ρ.sites.covers pos) {l r : Ty}
    (hl : s.Holds l) (hr : s.Holds r) :
    Ends ρ s (arithmetic op pos l r) (Store.Types ρ.sites) := by
  unfold arithmetic
  split
  · exact .pure h (.ok (holds_widerNumeric h l r))
  split
  · exact .pure h (.ok (h.registry.basic .string))
  refine (unifyFree_ends h hl hr).bind fun out s' h' _ hout => ?_
  cases out with
  | some t => exact .pure h' (.ok (hout t rfl))
  | none => exact .pure h' (operatorMismatch_types h' op hpos l r)

theorem equality_ends (op : Operator) (hpos : ρ.sites.covers pos) {l r : Ty}
    (hl : s.Holds l) (hr : s.Holds r) :
    Ends ρ s (equality op pos l r) (Store.Types ρ.sites) := by
  unfold equality
  refine (compatible_ends h hl hr).bind fun ok s' h' _ _ => ?_
  split
  · exact .pure h' (.ok (h'.registry.basic .bool))
  · exact .pure h' (operatorMismatch_types h' op hpos l r)

theorem ordering_ends (op : Operator) (hpos : ρ.sites.covers pos) {l r : Ty}
    (hl : s.Holds l) (hr : s.Holds r) :
    Ends ρ s (ordering op pos l r) (Store.Types ρ.sites) := by
  unfold ordering
  split
  · exact .pure h (.ok (h.registry.basic .bool))
  refine (unifyFree_ends h hl hr).bind fun out s' h' _ _ => ?_
  cases out with
  | some t => exact .pure h' (.ok (h'.registry.basic .bool))
  | none => exact .pure h' (operatorMismatch_types h' op hpos l r)

theorem noFaults_ends {faults : List Diagnostic} (hf : AllClean ρ.sites faults)
    {next : CheckM Typed} (hnext : Ends ρ s next (Store.Types ρ.sites)) :
    Ends ρ s (match faults with
      | [] => next
      | faults => return .broken faults) (Store.Types ρ.sites) := by
  split
  · exact hnext
  · exact .pure h (.broken h hf)

theorem logical_ends (op : Operator) {left right : Position}
    (hleft : ρ.sites.covers left) (hright : ρ.sites.covers right) {l r : Ty}
    (hl : s.Holds l) (hr : s.Holds r) :
    Ends ρ s (logical op left right l r) (Store.Types ρ.sites) := by
  unfold logical
  refine (expect_ends h (h.registry.basic .bool) hl hleft _).bind fun first s' h' he hfirst => ?_
  refine (expect_ends h' (h'.registry.basic .bool) (he.holds hr) hright _).bind
    fun second s'' h'' _ hsecond => ?_
  exact noFaults_ends h'' (hfirst.append hsecond) (.pure h'' (.ok (h''.registry.basic .bool)))

theorem range_ends {elem : Ty} (he : s.Holds elem) :
    Ends ρ s (onRegistry (Registry.range elem)) fun s' t => s'.Holds t :=
  register_ends h (by simp) (by simpa [Ty.parts] using he)

theorem rangeOf_ends (op : Operator) (hpos : ρ.sites.covers pos) {l r : Ty}
    (hl : s.Holds l) (hr : s.Holds r) :
    Ends ρ s (rangeOf op pos l r) (Store.Types ρ.sites) := by
  unfold rangeOf
  split
  · exact (range_ends h (holds_widerNumeric h l r)).bind fun t s' h' _ ht => .pure h' (.ok ht)
  refine (compatible_ends h hl hr).bind fun ok s' h' he _ => ?_
  split
  · refine (resolve_ends h' (he.holds hl)).bind fun elem s'' h'' _ helem => ?_
    exact (range_ends h'' helem).bind fun t s₃ h₃ _ ht => .pure h₃ (.ok ht)
  · exact .pure h' (operatorMismatch_types h' op hpos l r)

omit h in
/-- Apart from assignment, every operator that stands between two operands is of one of the classes
that are told apart. -/
theorem operator_class (hop : op ∈ Operator.binary) (hne : op ≠ .assign) :
    (op.isArithmetic || op.isEquality || op.isOrdering || op.isLogical || op.isRange) = true := by
  revert hop hne
  cases op <;> decide

omit h in
/-- All operators between two operands but assignment. -/
theorem binary_proper (hop : op ∈ Operator.binary) (hne : op ≠ .assign) {left : Operand}
    (hleft : left.Proper ρ) (hright : right.Proper ρ) (hpos : ρ.sites.covers pos) :
    Proper ρ (binary op left right pos) := by
  intro s h
  have hclass := operator_class hop hne
  unfold binary
  refine (hleft.read h).bind fun l s' h' he hl => ?_
  refine (hright.read h').bind fun r s'' h'' he' hr => ?_
  refine noFaults_ends h'' (hl.clean.append hr.clean) ?_
  refine (resolve_ends h'' (he'.holds hl.holds)).bind fun lt s₃ h₃ he₃ hlt => ?_
  refine (resolve_ends h₃ (he₃.holds hr.holds)).bind fun rt s₄ h₄ he₄ hrt => ?_
  have hlt := he₄.holds hlt
  split
  · exact .pure h₄ (.ok (h₄.registry.basic .invalid))
  split
  · exact arithmetic_ends h₄ op hpos hlt hrt
  split
  · exact equality_ends h₄ op hpos hlt hrt
  split
  · exact ordering_ends h₄ op hpos hlt hrt
  split
  · exact logical_ends h₄ op hleft.pos hright.pos hlt hrt
  split
  · exact rangeOf_ends h₄ op hpos hlt hrt
  · simp_all

/-! ## Assignment -/

omit h in
theorem assignedValue_proper (hdrops : ρ.drops here) (hr : right.Proper ρ) :
    Proper ρ (assignedValue here right) := by
  intro s h
  unfold assignedValue
  refine (hr.take h).bind fun v s' h' _ hv => ?_
  exact (release_ends h' hdrops).bind fun _ s'' h'' he _ => .pure h'' (hv.mono he.toReaches)

theorem assigned_ends {target : Ty} (ht : s.Holds target) {v : Typed}
    (hv : s.Types ρ.sites v) (hpos : ρ.sites.covers pos) :
    Ends ρ s (assigned target v pos) (Store.Types ρ.sites) := by
  unfold assigned
  split
  · refine (expect_ends h ht hv.holds hpos _).bind fun faults s' h' he hfaults => ?_
    exact .pure h' ⟨he.holds ht, hfaults⟩
  · exact .pure h ⟨ht, hv.clean⟩

omit h in
/-- An assignment through a reference: the value first, whose records are released, then the
reference. -/
theorem assignThrough_proper (hdrops : ρ.drops here) {reference : Operand}
    (href : reference.Proper ρ) (hr : right.Proper ρ) (hpos : ρ.sites.covers pos) :
    Proper ρ (assignThrough here reference right pos) := by
  intro s h
  unfold assignThrough
  refine (assignedValue_proper hdrops hr h).bind fun v s' h' he hv => ?_
  refine (href.read h').bind fun r s'' h'' he' href => ?_
  split
  · exact .pure h'' (.broken h'' (hv.clean.append href.clean))
  refine (resolve_ends h'' href.holds).bind fun resolved s₃ h₃ he₃ hresolved => ?_
  split
  · exact .pure h₃ (.broken h₃ hv.clean)
  split
  next inner _ =>
    refine assigned_ends h₃ ?_ ((hv.mono he'.toReaches).mono he₃.toReaches) hr.pos
    exact h₃.registry.holds_part hresolved (by simp [Ty.parts])
  · exact .pure h₃ (.broken h₃ (hv.clean.append (allClean_mk' hpos _ rfl)))
  · exact .pure h₃ (.broken h₃ (hv.clean.append (allClean_mk' hpos _ rfl)))

/-- A check that looks for a place on every good store. -/
def PlaceProper (ρ : Rights) (place : CheckM (Except (List Diagnostic) Placed)) : Prop :=
  ∀ {s : Store}, s.Good → Ends ρ s place (Store.PlacesOr ρ.sites)

omit h in
/-- An assignment to a place: the value first, whose records are released, then the place, of which
the root is accessed. -/
theorem assignPlace_proper (hmakes : ρ.makes here) (hdrops : ρ.drops here)
    (hplace : PlaceProper ρ place)
    (isPart : Bool) {targetPos : Position} (htarget : ρ.sites.covers targetPos)
    (hr : right.Proper ρ) :
    Proper ρ (assignPlace here place isPart targetPos right) := by
  intro s h
  unfold assignPlace
  refine (assignedValue_proper hdrops hr h).bind fun v s' h' _ hv => ?_
  refine (hplace h').bind fun found s'' h'' he hfound => ?_
  have hv := hv.mono he.toReaches
  cases found with
  | error faults => exact .pure h'' (.broken h'' (hv.clean.append hfound))
  | ok p =>
    have hkind : ∀ n, (if isPart then AccessKind.borrowMutably else .write) ≠ .unlisted n := by
      cases isPart <;> simp
    refine (access_ends h'' htarget hfound.seen hkind hmakes).bind
      fun faults s₃ h₃ he₃ hfaults => ?_
    split
    · exact assigned_ends h₃ (he₃.holds hfound.holds) (hv.mono he₃.toReaches) hr.pos
    · exact .pure h₃ (.broken h₃ (hv.clean.append hfaults))

/-! ## Prefix operators -/

theorem refTo_ends (ht : s.Holds t) (mutable : Bool) :
    Ends ρ s (register (.ref t mutable none)) fun s' u => s'.Holds u :=
  register_ends h (by simp) (by simpa [Ty.parts] using ht)

/-- A reference to a value that is no place. -/
theorem borrowedValue_ends (mutable : Bool) (ho : operand.Proper ρ) :
    Ends ρ s (do
      let t ← operand.read
      match t.faults with
      | [] => return { type := ← register (.ref t.type mutable none) }
      | faults => return .broken faults) (Store.Types ρ.sites) := by
  refine (ho.read h).bind fun t s' h' _ ht => noFaults_ends h' ht.clean ?_
  exact (refTo_ends h' ht.holds mutable).bind fun t s'' h'' _ ht => .pure h'' (.ok ht)

/-- A reference to a place is recorded in the scope that keeps it, one to a value is not
recorded. -/
theorem borrowOf_ends (mutable : Bool) {scope : Int} (hscope : ρ.makes scope)
    (hplace : PlaceProper ρ place)
    (isPlace : Bool) (ho : operand.Proper ρ) (hpos : ρ.sites.covers pos) :
    Ends ρ s (borrowOf mutable scope place isPlace operand pos) (Store.Types ρ.sites) := by
  unfold borrowOf
  refine (hplace h).bind fun found s' h' _ hfound => ?_
  cases found with
  | ok p =>
    have hkind : ∀ n, (if mutable then AccessKind.borrowMutably else .borrow) ≠ .unlisted n := by
      cases mutable <;> simp
    refine (access_ends h' hpos hfound.seen hkind hscope).bind fun faults s'' h'' he' hfaults => ?_
    refine noFaults_ends h'' hfaults ?_
    exact (refTo_ends h'' (he'.holds hfound.holds) mutable).bind fun t s₃ h₃ _ ht =>
      .pure h₃ (.ok ht)
  | error faults =>
    dsimp only
    split
    · exact .pure h' (.broken h' hfound)
    exact borrowedValue_ends h' mutable ho

theorem negation_ends (hpos : ρ.sites.covers pos) (ht : s.Holds t) :
    Ends ρ s (negation pos t) (Store.Types ρ.sites) := by
  unfold negation
  refine (hasFree_ends h t).bind fun free s' h' he _ => ?_
  split
  · exact .pure h' (.ok (he.holds ht))
  · exact .pure h' (.failed h' hpos _ rfl)

theorem logicalNot_ends (hpos : ρ.sites.covers pos) (ht : s.Holds t) :
    Ends ρ s (logicalNot pos t) (Store.Types ρ.sites) := by
  unfold logicalNot
  refine (expect_ends h (h.registry.basic .bool) ht hpos _).bind fun faults s' h' _ hfaults => ?_
  exact noFaults_ends h' hfaults (.pure h' (.ok (h'.registry.basic .bool)))

/-- An operand of an open type is made of the shape that the operator asks for. -/
theorem shapeOf_ends (ht : s.Holds t) {shape : Ty → Ty}
    (hnv : ∀ u v, shape u ≠ .var v)
    (hparts : ∀ u, (shape u).parts = [u]) (hpos : ρ.sites.covers pos) :
    Ends ρ s (do
      let inner ← fresh
      let wanted ← register (shape inner)
      match ← unify t wanted with
      | .ok _ => return { type := inner }
      | .error fault => return .broken [fault.diagnostic pos]) (Store.Types ρ.sites) := by
  refine (fresh_ends h).bind fun inner s' h' he hinner => ?_
  refine (register_ends h' (hnv inner) ?_).bind fun wanted s'' h'' he' hwanted => ?_
  · rw [hparts]
    simpa using hinner
  refine (unify_ends h'' (he'.holds (he.holds ht)) hwanted).bind fun out s₃ h₃ he₃ _ => ?_
  cases out with
  | ok _ => exact .pure h₃ (.ok (he₃.holds (he'.holds hinner)))
  | error fault => exact .pure h₃ (.broken h₃ (allClean_one (fault.clean hpos)))

theorem dereference_ends (hpos : ρ.sites.covers pos) (ht : s.Holds t) :
    Ends ρ s (dereference pos t) (Store.Types ρ.sites) := by
  unfold dereference
  split
  · exact .pure h (.ok (h.registry.holds_part ht (by simp [Ty.parts])))
  · split
    · exact .pure h (.failed h hpos _ rfl)
    · exact shapeOf_ends h ht (by simp) (by simp [Ty.parts]) hpos
  · exact .pure h (.failed h hpos _ rfl)

end

theorem unary_proper (hop : op ∈ Operator.unary) (hamp : op ≠ .amp) (hmut : op ≠ .ampMut)
    (ho : operand.Proper ρ) (hpos : ρ.sites.covers pos) : Proper ρ (unary op operand pos) := by
  intro s h
  unfold unary
  refine (ho.read h).bind fun x s' h' _ hx => ?_
  split
  · exact .pure h' (.broken h' hx.clean)
  refine (resolve_ends h' hx.holds).bind fun t s'' h'' _ ht => ?_
  split
  · exact .pure h'' (.ok (h''.registry.basic .invalid))
  split
  · exact negation_ends h'' hpos ht
  · exact logicalNot_ends h'' ho.pos ht
  · exact dereference_ends h'' hpos ht
  · next hm hb hd => simp_all [Operator.unary]

end

end Checking

end UnitCheck
