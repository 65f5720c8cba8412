import UnitCheck.Checking.Variables
import UnitCheck.Proofs.Checking.Members
import UnitCheck.Proofs.Tree.Operators

/-!
# Expressions

Checking an expression whose operators stand where they may ends well on every good store
(`checks_of_fits`), by induction over the expression with one lemma for each kind of it. What is
found stands at the places of the expression. It makes records under the scope of its statement
only, and only an assignment releases any. A statement that evaluates an expression leaves nothing
of this behind (`evaluate_ends`).
-/

namespace UnitCheck

open Checking List

mutual

/-- Whether an assignment stands in an expression. -/
def Expr.assigns : Expr → Bool
  | .binary op l r _ => op == .assign || (l.assigns || r.assigns)
  | .unary _ x _ => x.assigns
  | .call callee args _ => callee.assigns || Expr.anyAssigns args
  | .methodCall receiver _ args _ => receiver.assigns || Expr.anyAssigns args
  | .member target _ _ => target.assigns
  | .index target subscript _ => target.assigns || subscript.assigns
  | .array elems _ => Expr.anyAssigns elems
  | .tuple elems _ => Expr.anyAssigns elems
  | .struct _ inits _ => Expr.initsAssign inits
  | .cast x _ _ => x.assigns
  | .literal .. | .ident .. | .path .. => false

def Expr.anyAssigns : List Expr → Bool
  | [] => false
  | e :: rest => e.assigns || Expr.anyAssigns rest

def Expr.initsAssign : List (Label × Expr) → Bool
  | [] => false
  | (_, e) :: rest => e.assigns || Expr.initsAssign rest

end

/-- What has to be shown of an expression: it can be used as an operand and as a place, and if it is
what a reference refers to, the reference can be used. -/
structure Expr.Checks (ρ : Rights) (here : Int) (e : Expr) : Prop where
  operand : (operand here e).Proper ρ
  place : ∀ write, PlaceProper ρ (place here write e)
  reference : ∀ x p, e = .unary .deref x p → (Checking.operand here x).Proper ρ

namespace Checking

section

-- The equations of these mutual definitions, for all proofs that need them.
attribute [local simp] operand operands initOperands place

end

section

variable {ρ : Rights} {here : Int} {pos : Position} {op : Operator}

/-- An expression that is no place and does not look behind a reference. -/
theorem checks_value {e : Expr} (hat : e.Placed ρ.sites) {check : CheckM Typed}
    (hpos : ρ.sites.covers pos) (hcheck : Proper ρ check) (hop : operand here e = value pos check)
    (hplace : ∀ write, place here write e =
      return .error [.mk' .invalidType e.pos "expression is not assignable"])
    (href : ∀ x p, e ≠ .unary .deref x p) : e.Checks ρ here where
  operand := hop ▸ value_proper hpos hcheck
  place write := by
    intro s h
    rw [hplace]
    exact .pure h (allClean_mk' hat.at_pos _ rfl)
  reference x p heq := absurd heq (href x p)

theorem checks_ident (hmakes : ρ.makes here) (name : String) (hpos : ρ.sites.covers pos) :
    (Expr.ident name pos).Checks ρ here where
  operand := by
    rw [operand]
    exact ⟨hpos, ident_proper hmakes name hpos false, ident_proper hmakes name hpos true⟩
  place write := by
    intro s h
    rw [place]
    exact rootPlace_ends h name hpos write
  reference x p heq := by cases heq

/-- A member is checked through its target, as a value and as a place. -/
theorem checks_member (hmakes : ρ.makes here) {target : Expr} (ht : target.Checks ρ here)
    (name : String) (hpos : ρ.sites.covers pos) : (Expr.member target name pos).Checks ρ here where
  operand := by
    rw [operand]
    exact value_proper hpos (member_proper hmakes _ ht.operand name hpos)
  place write := by
    intro s h
    rw [place]
    refine (ht.place write h).bind fun found s' h' _ hfound => ?_
    cases found with
    | error faults => exact .pure h' hfound
    | ok p => exact partPlace_ends hfound fun t ht => memberOf_ends h' ht name hpos
  reference x p heq := by cases heq

theorem checks_index {target subscript : Expr} (ht : target.Checks ρ here)
    (hs : subscript.Checks ρ here) (hpos : ρ.sites.covers pos) :
    (Expr.index target subscript pos).Checks ρ here where
  operand := by
    rw [operand]
    exact value_proper hpos (index_proper ht.operand hs.operand hpos)
  place write := by
    intro s h
    rw [place]
    refine (ht.place write h).bind fun found s' h' _ hfound => ?_
    cases found with
    | error faults => exact .pure h' hfound
    | ok p => exact partPlace_ends hfound fun t ht => indexed_ends h' ht hs.operand hpos
  reference x p heq := by cases heq

/-- An assignment to what is not behind a reference is one to a place. -/
theorem operand_assign (here : Int) {l : Expr} (r : Expr) (pos : Position)
    (hl : ∀ x p, l = .unary .deref x p → False) : ∃ isPart, operand here (.binary .assign l r pos) =
      value pos (assignPlace here (place here true l) isPart l.pos (operand here r)) := by
  by_cases hid : ∃ name p, l = .ident name p
  · obtain ⟨name, p, rfl⟩ := hid
    exact ⟨false, by rw [operand]⟩
  · refine ⟨true, ?_⟩
    rw [operand]
    · exact hl
    · exact fun name p heq => hid ⟨name, p, heq⟩

/-- Assignments drop records, so that the rights have to allow it; other operators evaluate their
operands only. -/
theorem checks_binary (hmakes : ρ.makes here) {l r : Expr} (hop : op ∈ Operator.binary)
    (hat : (Expr.binary op l r pos).Placed ρ.sites) (hdrops : op = .assign → ρ.drops here)
    (hl : l.Checks ρ here) (hr : r.Checks ρ here) : (Expr.binary op l r pos).Checks ρ here := by
  obtain ⟨hpos, hleft, -⟩ : ρ.sites.covers pos ∧ l.Placed ρ.sites ∧ r.Placed ρ.sites := by
    simpa using hat
  by_cases hassign : op = .assign
  · subst hassign
    have hdrops := hdrops rfl
    by_cases href : ∃ x p, l = .unary .deref x p
    · obtain ⟨x, p, rfl⟩ := href
      have hp : ρ.sites.covers p ∧ x.Placed ρ.sites := by simpa using hleft
      exact checks_value hat hpos
        (assignThrough_proper hdrops (hl.reference x p rfl) hr.operand hp.1) (by rw [operand])
        (by simp [place]) (by simp)
    · obtain ⟨isPart, heq⟩ := operand_assign here r pos fun x p heq => href ⟨x, p, heq⟩
      exact checks_value hat hpos
        (assignPlace_proper hmakes hdrops (hl.place true) isPart hleft.at_pos hr.operand) heq
        (by simp [place]) (by simp)
  · have heq : operand here (.binary op l r pos) =
        value pos (binary op (operand here l) (operand here r) pos) := by
      rw [operand]
      · exact fun _ _ h _ => hassign h
      · exact hassign
    exact checks_value hat hpos (binary_proper hop hassign hl.operand hr.operand hpos) heq
      (by simp [place]) (by simp)

/-- References are taken to places, the other operators evaluate their operand. -/
theorem checks_unary (hmakes : ρ.makes here) {x : Expr} (hop : op ∈ Operator.unary)
    (hat : (Expr.unary op x pos).Placed ρ.sites) (hx : x.Checks ρ here) :
    (Expr.unary op x pos).Checks ρ here := by
  have hpos : ρ.sites.covers pos := by
    exact hat.1
  -- `&` and `&mut` borrow the operand where it is a place, and its value otherwise
  have hborrow : ∀ mutable, Proper ρ
      (borrowOf mutable here (place here false x) (isPlace x) (operand here x) pos) :=
    fun mutable s h => borrowOf_ends h mutable hmakes (hx.place false) _ hx.operand hpos
  -- none of the operators makes a place
  have hplace : ∀ write, place here write (.unary op x pos) =
      return .error [.mk' .invalidType pos "expression is not assignable"] := by
    simp [place, Expr.pos]
  by_cases hamp : op = .amp
  · subst hamp
    exact checks_value hat hpos (hborrow false) (by rw [operand]) hplace (by simp)
  by_cases hmut : op = .ampMut
  · subst hmut
    exact checks_value hat hpos (hborrow true) (by rw [operand]) hplace (by simp)
  · refine ⟨?_, ?_, ?_⟩
    · rw [operand]
      · exact value_proper hpos (unary_proper hop hamp hmut hx.operand hpos)
      · exact hamp
      · exact hmut
    · intro write s h
      rw [hplace]
      exact .pure h (allClean_mk' hpos _ rfl)
    · intro y p heq
      cases heq
      exact hx.operand

theorem mem_operands {es : List Expr} (hes : ∀ e ∈ es, e.Checks ρ here) :
    ∀ o ∈ operands here es, o.Proper ρ := by
  induction es with
  | nil => simp [operands]
  | cons e es ih =>
    rw [forall_mem_cons] at hes
    rw [operands, forall_mem_cons]
    exact ⟨hes.1.operand, ih hes.2⟩

theorem mem_initOperands {inits : List (Label × Expr)}
    (hes : ∀ p ∈ inits, ρ.sites.covers p.1.pos ∧ p.2.Checks ρ here) :
    ∀ p ∈ initOperands here inits, ρ.sites.covers p.1.pos ∧ p.2.Proper ρ := by
  induction inits with
  | nil => simp [initOperands]
  | cons p rest ih =>
    rw [forall_mem_cons] at hes
    rw [initOperands, forall_mem_cons]
    exact ⟨⟨hes.1.1, hes.1.2.operand⟩, ih hes.2⟩

mutual

/-- **Every expression is checked within its rights**, by induction on the expression: as a value,
as something that is taken, and as a place. -/
theorem checks_of_fits (hmakes : ρ.makes here) (e : Expr) (he : e.Fits) (hat : e.Placed ρ.sites)
    (hdrops : e.assigns = true → ρ.drops here) : e.Checks ρ here := by
  match e with
  | .literal v pos =>
    have hpos : ρ.sites.covers pos := by simpa using hat
    exact checks_value hat hpos (literal_proper v) (by rw [operand]) (by simp [place]) (by simp)
  | .ident name pos => exact checks_ident hmakes name (by simpa using hat)
  | .path segments pos =>
    have hpos : ρ.sites.covers pos := by simpa using hat
    exact checks_value hat hpos (pathValue_proper hmakes segments hpos) (by rw [operand])
      (by simp [place]) (by simp)
  | .binary op l r pos =>
    obtain ⟨-, hl, hr⟩ := by simpa only [Expr.Placed] using hat
    simp only [Expr.assigns, Bool.or_eq_true, beq_iff_eq, or_imp] at hdrops
    exact checks_binary hmakes he.1 hat hdrops.1 (checks_of_fits hmakes l he.2.1 hl hdrops.2.1)
      (checks_of_fits hmakes r he.2.2 hr hdrops.2.2)
  | .unary op x pos =>
    obtain ⟨-, hx⟩ := by simpa only [Expr.Placed] using hat
    exact checks_unary hmakes he.1 hat (checks_of_fits hmakes x he.2 hx hdrops)
  | .call callee args pos =>
    obtain ⟨hpos, hcallee, hargs⟩ := by simpa only [Expr.Placed] using hat
    rw [Expr.assigns, Bool.or_eq_true, or_imp] at hdrops
    -- the whole stands where the callee does, what is wrong with it at its own place
    refine checks_value hat hcallee.at_pos
      (call_proper (checks_of_fits hmakes callee he.1 hcallee hdrops.1).operand _ ?_ hpos)
      (by rw [operand]) (by simp [place]) (by simp)
    exact mem_operands (checks_of_allFit hmakes args he.2 hargs hdrops.2)
  | .methodCall receiver name args pos =>
    obtain ⟨hpos, hreceiver, hargs⟩ := by simpa only [Expr.Placed] using hat
    rw [Expr.assigns, Bool.or_eq_true, or_imp] at hdrops
    refine checks_value hat hpos
      (methodCall_proper
        (checks_of_fits hmakes receiver he.1 hreceiver hdrops.1).operand name ?_ hpos)
      (by rw [operand]) (by simp [place]) (by simp)
    exact mem_operands (checks_of_allFit hmakes args he.2 hargs hdrops.2)
  | .member target name pos =>
    obtain ⟨hpos, htarget⟩ := by simpa only [Expr.Placed] using hat
    exact checks_member hmakes (checks_of_fits hmakes target he htarget hdrops) name hpos
  | .index target subscript pos =>
    obtain ⟨hpos, htarget, hsubscript⟩ := by simpa only [Expr.Placed] using hat
    rw [Expr.assigns, Bool.or_eq_true, or_imp] at hdrops
    exact checks_index (checks_of_fits hmakes target he.1 htarget hdrops.1)
      (checks_of_fits hmakes subscript he.2 hsubscript hdrops.2) hpos
  | .array elems pos =>
    obtain ⟨hpos, helems⟩ := by simpa only [Expr.Placed] using hat
    refine checks_value hat hpos (arrayLiteral_proper ?_) (by rw [operand])
      (by simp [place]) (by simp)
    exact mem_operands (checks_of_allFit hmakes elems he helems hdrops)
  | .tuple elems pos =>
    obtain ⟨hpos, helems⟩ := by simpa only [Expr.Placed] using hat
    refine checks_value hat hpos (tupleLiteral_proper ?_) (by rw [operand])
      (by simp [place]) (by simp)
    exact mem_operands (checks_of_allFit hmakes elems he helems hdrops)
  | .struct name inits pos =>
    obtain ⟨hpos, hinits⟩ := by simpa only [Expr.Placed] using hat
    refine checks_value hat hpos (structLiteral_proper name ?_ hpos) (by rw [operand])
      (by simp [place]) (by simp)
    exact mem_initOperands (checks_of_initsFit hmakes inits he hinits hdrops)
  | .cast x type pos =>
    obtain ⟨hpos, hx, htype⟩ := by simpa only [Expr.Placed] using hat
    exact checks_value hat hpos
      (cast_proper (checks_of_fits hmakes x he hx hdrops).operand htype hpos) (by rw [operand])
      (by simp [place]) (by simp)

theorem checks_of_allFit (hmakes : ρ.makes here) (es : List Expr) (he : Expr.AllFit es)
    (hat : Expr.AllPlaced ρ.sites es) (hdrops : Expr.anyAssigns es = true → ρ.drops here) :
    ∀ e ∈ es, e.Checks ρ here := by
  match es with
  | [] => simp
  | e :: rest =>
    rw [Expr.anyAssigns, Bool.or_eq_true, or_imp] at hdrops
    exact forall_mem_cons.mpr ⟨checks_of_fits hmakes e he.1 hat.1 hdrops.1,
      checks_of_allFit hmakes rest he.2 hat.2 hdrops.2⟩

theorem checks_of_initsFit (hmakes : ρ.makes here) (inits : List (Label × Expr))
    (he : Expr.InitsFit inits) (hat : Expr.InitsPlaced ρ.sites inits)
    (hdrops : Expr.initsAssign inits = true → ρ.drops here) :
    ∀ p ∈ inits, ρ.sites.covers p.1.pos ∧ p.2.Checks ρ here := by
  match inits with
  | [] => simp
  | (label, e) :: rest =>
    rw [Expr.initsAssign, Bool.or_eq_true, or_imp] at hdrops
    exact forall_mem_cons.mpr ⟨⟨hat.1, checks_of_fits hmakes e he.1 hat.2.1 hdrops.1⟩,
      checks_of_initsFit hmakes rest he.2 hat.2.2 hdrops.2⟩

end

end

/-! ## Statements that evaluate an expression -/

theorem checks_during (ρ : Rights) (here : Int) {e : Expr} (he : e.Fits) (hat : e.Placed ρ.sites) :
    e.Checks (ρ.during here) here :=
  checks_of_fits (Or.inl rfl) e he hat fun _ => Or.inl rfl

/-- A reference to a place. -/
def lends : Expr → Bool
  | .unary .amp x _ => isPlace x
  | .unary .ampMut x _ => isPlace x
  | _ => false

/-- An expression that is no place has none. -/
theorem place_of_not_isPlace (here : Int) (write : Bool) {x : Expr} (hx : isPlace x = false) :
    ∃ faults, place here write x = return .error faults := by
  fun_induction isPlace x with
  | case1 => cases hx
  | case2 target subscript pos ih =>
    obtain ⟨faults, heq⟩ := ih hx
    exact ⟨faults, by rw [place, heq, pure_bind]⟩
  | case3 target name pos ih =>
    obtain ⟨faults, heq⟩ := ih hx
    exact ⟨faults, by rw [place, heq, pure_bind]⟩
  | case4 x hident hindex hmember => exact ⟨_, by rw [place] <;> assumption⟩

section

variable {ρ : Rights} {here : Int} {s : Store}

/-- A reference to a place lives in the current scope, one to anything else until the end of the
statement. -/
theorem bindingRef_ends (h : s.Good) (mutable : Bool) {scope : Int} {x : Expr}
    (hlends : isPlace x = true → ρ.makes scope) (hx : x.Checks ρ here) {pos : Position}
    (hpos : ρ.sites.covers pos) :
    Ends ρ s (borrowOf mutable scope (place here false x) (isPlace x) (operand here x) pos)
      (Store.Types ρ.sites) := by
  by_cases hplace : isPlace x = true
  · exact borrowOf_ends h mutable (hlends hplace) (hx.place false) _ hx.operand hpos
  · rw [Bool.not_eq_true] at hplace
    obtain ⟨faults, heq⟩ := place_of_not_isPlace here false hplace
    rw [heq, hplace, borrowOf, pure_bind]
    exact borrowedValue_ends h mutable hx.operand

/-- A value of a binding may borrow under the current scope. -/
theorem bindingValue_ends (h : s.Good) {e : Expr} (he : e.Fits) (hat : e.Placed ρ.sites)
    (hlends : lends e = true → ρ.makes s.table.current) :
    Ends (ρ.during here) s (bindingValue here e) (Store.Types ρ.sites) := by
  unfold bindingValue
  refine .get ?_
  split
  next x pos =>
    exact bindingRef_ends h false (fun hl => Or.inr (hlends hl))
      (checks_during ρ here he.2 hat.2) hat.1
  next x pos =>
    exact bindingRef_ends h true (fun hl => Or.inr (hlends hl))
      (checks_during ρ here he.2 hat.2) hat.1
  · exact (checks_during ρ here he hat).operand.take h

/-- The store in which the check of a statement's expression starts, with a scope of its own for
what lives until the end of the statement. -/
def withTemporary (s : Store) : Store := { s with ledger := s.ledger.temporary.2 }

theorem withTemporary_good (h : s.Good) : (withTemporary s).Good := by
  refine h.withLedger ⟨h.ledger.nodup, h.ledger.shared⟩ h.spent ?_ h.tracked_lt
  have := h.temporary_lt
  show s.ledger.nextTemporary - 1 < -1
  omega

theorem evaluates_withTemporary (ρ : Rights) (s : Store) : s.Evaluates ρ (withTemporary s) := by
  have hrecords : Ledger.Under ρ.makes s.ledger s.ledger.temporary.2 :=
    Ledger.under_of_sublist fun _ => .refl _
  have hcontinues : s.ledger.Continues s.ledger.temporary.2 := by
    refine ⟨fun _ => rfl, ?_⟩
    show s.ledger.nextTemporary - 1 ≤ _
    omega
  exact (Store.reaches_withLedger s [] hrecords hcontinues (by simp)).evaluates rfl rfl
    ((Store.Keeps.refl s).congr rfl rfl rfl rfl id) fun h => h.aside rfl rfl

theorem filed_withTemporary (hs : s.Filed) : (withTemporary s).Filed :=
  fun id a ha => (evaluates_withTemporary (.over .any fun _ => False) s).alive (hs id a ha)

/-- The scope of a statement that begins. -/
theorem alive_withTemporary (h : s.Good) : (withTemporary s).Alive s.ledger.nextTemporary := by
  have := h.temporary_lt
  refine ⟨?_, fun n hn => by omega⟩
  show s.ledger.nextTemporary - 1 < _
  omega

/-- Nothing made under the scope of the statement is left at its end. -/
theorem evaluate_ends (h : s.Good) {check : (here : Int) → CheckM Typed}
    (hcheck : ∀ here, Ends (ρ.during here) (withTemporary s) (check here) (Store.Types ρ.sites)) :
    Ends ρ s (evaluate check) (Store.Types ρ.sites) := by
  let here := s.ledger.nextTemporary
  have hends := hcheck here
  let s' := ((check here).run (withTemporary s)).2
  have hafter : s'.Evaluates (ρ.during here) { s' with ledger := s'.ledger.release here } :=
    Store.evaluates_release (Or.inl rfl) s'
  have hall := (evaluates_withTemporary _ s).trans (hends.evaluates.trans hafter)
  refine ⟨hends.good.release here, ⟨{ hall.toReaches with records := ?_ }, hall.events, ?_,
    hall.completes⟩, ?_⟩
  · exact hends.evaluates.records.release
  · -- no record is under a scope that has not been handed out before
    intro halive
    have hkeeps := hends.evaluates.keeps fun scope hs => ?_
    · have hkept := (hkeeps.congr rfl rfl rfl rfl filed_withTemporary : s.Keeps _ s')
      exact hkept.released (fun hs id a ha => Int.ne_of_gt (hs id a ha).1) rfl rfl
    · rcases hs with rfl | hs
      · exact alive_withTemporary h
      · exact (evaluates_withTemporary ρ s).alive (halive scope hs)
  · exact hends.result.mono hafter.toReaches

end

end Checking

end UnitCheck
