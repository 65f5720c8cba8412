import UnitCheck.Proofs.Checking.Statements

/-!
# Records across the check of an expression

What an expression reads, writes and borrows is on record under the scope of its statement until the
statement ends. An assignment releases this scope earlier, as soon as its right side has been
checked. With that go not only the records of the right side but all that the statement has made so
far.

`operand_keeps_records` says what is kept: everything if no assignment stands in the expression, and
otherwise everything under other scopes, unless the expression has moved the variable. That the
borrow of an argument can be lost to an assignment in the next one is shown by
`assignment_drops_borrow`. -/

namespace UnitCheck

namespace Store

variable {s s' : Store}

/-- A variable keeps its records as long as it is not moved. -/
theorem Evaluates.active_sublist {ρ : Rights} (he : s.Evaluates ρ s') (h : s.Good)
    (hfiled : s.Filed) (halive : ∀ scope, ρ.makes scope → s.Alive scope) {id : Int}
    (hstays : s.ledger.isMoved id = false → s'.ledger.isMoved id = false) {keep : Access → Bool}
    (hkeep : ∀ a, keep a = true → ¬ ρ.drops a.scope) :
    ((s.ledger.active id).filter keep).Sublist (s'.ledger.active id) := by
  cases hk : s.ledger.get? id with
  | none => simp [Ledger.active, hk]
  | some k =>
    obtain ⟨k', hk', -⟩ := he.holdings hk
    rw [Ledger.isMoved, Ledger.isMoved, hk, hk'] at hstays
    rw [Ledger.active_of_get? hk, Ledger.active_of_get? hk']
    by_cases hm : k.isMoved = true
    · rw [h.spent id k hk hm]
      exact List.nil_sublist _
    · have hkept := (he.keeps halive).records hfiled (he.not_declared hk) hk hk'
        (hstays (Bool.not_eq_true _ ▸ hm))
      refine .trans (List.monotone_filter_right _ fun a ha => ?_) hkept
      simpa using hkeep a ha

end Store

namespace Checking

/-- The check of an expression, whether it is only looked at or taken over, leaves all records of a
variable that it does not move, but for those under the scope of the statement if an assignment
stands in it. For once the right side of an assignment has been checked, only the records under
other scopes are left. -/
theorem operand_keeps_records {e : Expr} (he : e.Fits) {s : Store} (h : s.Good) (hfiled : s.Filed)
    {here : Int} (hhere : s.Alive here) :
    (∀ check ∈ [(operand here e).read, (operand here e).take], ∀ id,
      (s.ledger.isMoved id = false ∧ (check.run s).2.ledger.isMoved id = true) ∨
        ((s.ledger.active id).filter fun a => !e.assigns || a.scope ≠ here).Sublist
          ((check.run s).2.ledger.active id)) ∧
      ∀ (right : Operand) (id : Int), ((assignedValue here right).run s).2.ledger.active id =
        ((right.take.run s).2.ledger.active id).filter (·.scope ≠ here) := by
  refine ⟨fun check hcheck id => ?_, fun right id => Ledger.active_release _ here id⟩
  let ρ : Rights := ⟨fun scope => scope = here, fun scope => e.assigns = true ∧ scope = here, .any⟩
  have hends : Ends ρ s check (Store.Types .any) := by
    have hproper := (checks_of_fits (ρ := ρ) rfl e he e.placed_any fun ha => ⟨ha, rfl⟩).operand
    simp only [List.mem_cons, List.not_mem_nil, or_false] at hcheck
    rcases hcheck with rfl | rfl
    · exact hproper.read h
    · exact hproper.take h
  rw [or_iff_not_imp_left, not_and, Bool.not_eq_true]
  intro hstays
  have halive : ∀ scope, scope = here → s.Alive scope := fun scope hs => hs ▸ hhere
  refine hends.evaluates.active_sublist h hfiled halive hstays fun a ha hdrops => ?_
  simp [hdrops.1, hdrops.2] at ha

/-- With a variable `a` that may be assigned to again. -/
def counterDeclared : Store :=
  withTemporary ((declareLocal "a" .letVar .unknown (.basic .int) true true).run {}).2

/-- The expression `&mut a`. -/
def lendCounter : Expr := .unary .ampMut (.ident "a" .unknown) .unknown

/-- Once `a` has been lent in a statement. -/
def counterLent : Store := ((operand (-2) lendCounter).read.run counterDeclared).2

theorem lendCounter_fits : lendCounter.Fits := by
  have hamp : Operator.ampMut ∈ Operator.unary := by decide
  simp [lendCounter, hamp]

theorem counterLent_good : counterLent.Good ∧ counterLent.Filed ∧ counterLent.Alive (-2) := by
  have hdeclare : Ends (.over .any fun _ => False) {}
      (declareLocal "a" .letVar .unknown (.basic .int) true true) fun _ ds => AllClean .any ds :=
    declareLocal_ends Store.good_empty "a" rfl trivial
      (Store.good_empty.registry.basic .int) true true
  have hempty : Store.Filed {} := fun _ _ ha => by cases ha
  have hfiled := filed_withTemporary (hdeclare.evaluates.filed (fun _ => False.elim) hempty)
  have halive := alive_withTemporary hdeclare.good
  have hchecks :=
    checks_during (.over .any fun _ => False) (-2) lendCounter_fits lendCounter.placed_any
  have hlend := hchecks.operand.read (withTemporary_good hdeclare.good)
  refine ⟨hlend.good, hlend.evaluates.filed ?_ hfiled, hlend.evaluates.alive halive⟩
  rintro scope (rfl | hno)
  · exact halive
  · exact hno.elim

/-- A second `&mut a` in the same statement is refused, and the first one is still on record. -/
theorem operand_keeps_records_lent_again :
    ((operand (-2) lendCounter).read.run counterLent).1.faults.length = 1 ∧
      (counterLent.ledger.active 0).length = 1 ∧
      ((counterLent.ledger.active 0).filter fun a => !lendCounter.assigns || a.scope ≠ -2).Sublist
        (((operand (-2) lendCounter).read.run counterLent).2.ledger.active 0) := by
  refine ⟨by decide +kernel, by decide +kernel, ?_⟩
  obtain ⟨hgood, hfiled, halive⟩ := counterLent_good
  have hkept := operand_keeps_records lendCounter_fits hgood hfiled halive
  refine (hkept.1 _ List.mem_cons_self 0).resolve_left fun hmoved => ?_
  exact absurd hmoved.2 (by decide +kernel)

/-- After `&mut a`, the assignment `a = 1` in the same statement finds nothing wrong and leaves no
record of the borrow, although `a` has not been moved. -/
theorem assignment_drops_borrow :
    let assign : Expr := .binary .assign (.ident "a" .unknown) (.literal (.int 1) .unknown) .unknown
    let out := (operand (-2) assign).read.run counterLent
    out.1.faults = [] ∧ out.2.ledger.isMoved 0 = false ∧
      counterLent.ledger.active 0 = [⟨.borrowMutably, -2, .unknown, ""⟩] ∧
      ¬ [⟨.borrowMutably, -2, .unknown, ""⟩].Sublist (out.2.ledger.active 0) := by
  decide +kernel

end Checking

end UnitCheck
