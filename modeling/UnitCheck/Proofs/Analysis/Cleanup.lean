import UnitCheck.Proofs.Analysis.Branches

/-!
# What a statement leaves behind

Reads, writes and borrows are on record under the scope of their statement or, inside a block, under
the scope of the block. Both are released in the end, so nothing is left of them
(`checkItem_reports` for no scope at all). The one exception is a variable or constant whose value
is a reference to a place: the borrow is recorded under the current scope, once and for one symbol
(`Ledger.Lends`).

`statement_cleans_up` puts the two together.
-/

namespace UnitCheck

open Checking List

/-- The record of a reference to a place that is bound in a scope. -/
def Checking.lent (scope : Int) : Expr → List Access
  | .unary .amp x pos => if isPlace x then [{ kind := .borrow, scope, pos }] else []
  | .unary .ampMut x pos => if isPlace x then [{ kind := .borrowMutably, scope, pos }] else []
  | _ => []

/-- The record that an item leaves in the scope where it stands. -/
def Item.lent (scope : Int) : Item → List Access
  | .letVar d => d.value.elim [] (Checking.lent scope)
  | .constant d => d.value.elim [] (Checking.lent scope)
  | _ => []

namespace Ledger

open scoped Classical in
/-- The records `as` of at most one symbol are new, and others under scopes that satisfy `P`. -/
def Lends (P : Int → Prop) (as : List Access) (l l' : Ledger) : Prop :=
  ∃ root : Int, ∀ id, ((l'.active id).filter fun a => ¬ P a.scope).Sublist
    (l.active id ++ if id = root then as else [])

section

variable {P : Int → Prop} {as : List Access} {l l' l'' : Ledger}

theorem Under.lends (h : Under P l l') (as : List Access) : Lends P as l l' :=
  ⟨0, fun id => (h id).trans (sublist_append_left _ _)⟩

open scoped Classical in
theorem Under.trans_lends (h : Under P l l') (h' : Lends P as l' l'') : Lends P as l l'' := by
  obtain ⟨root, h'⟩ := h'
  refine ⟨root, fun id => ?_⟩
  have hless := (h' id).filter fun a => decide (¬ P a.scope)
  rw [filter_append] at hless
  simp only [List.filter_filter, Bool.and_self] at hless
  exact hless.trans ((h id).append filter_sublist)

theorem Lends.trans_under (h : Lends P as l l') (h' : Under (fun _ => False) l' l'') :
    Lends P as l l'' := by
  obtain ⟨root, h⟩ := h
  exact ⟨root, fun id => ((h'.sublist id).filter _).trans (h id)⟩

theorem lends_access {symbol : Int} {a : Access} (hok : l.access symbol a = .ok l') :
    Lends P [a] l l' := by
  obtain ⟨h, h', hget, hacc, rfl⟩ := get?_of_access hok
  obtain ⟨-, -, -, hrecords⟩ := Holding.access_status hacc
  refine ⟨symbol, fun id => filter_sublist.trans ?_⟩
  rw [active_put]
  split
  · next heq => rwa [heq, active_of_get? hget]
  · rw [append_nil]

/-- Once the scope is released, the records that are left are those of the one symbol. -/
theorem Lends.release {scope : Int} (h : Lends (fun s => s = scope) as l l') :
    Lends (fun _ => False) as l (l'.release scope) := by
  obtain ⟨root, h⟩ := h
  refine ⟨root, fun id => .trans ?_ (h id)⟩
  rw [active_release]
  simp

end

end Ledger

namespace Checking

section

variable {α β : Type} {P : Int → Prop} {as : List Access} {s : Store} {Q : Store → α → Prop}
  {e : Expr}
  {f : α → CheckM β} {x : CheckM α}

theorem lends_bind (hx : Ends (.over .any P) s x Q)
    (hf : ∀ a s', s'.Good → s.Reaches P s' → Q s' a →
      Ledger.Lends P as s'.ledger ((f a).run s').2.ledger) :
    Ledger.Lends P as s.ledger ((x >>= f).run s).2.ledger :=
  hx.evaluates.records.trans_lends (hf _ _ hx.good hx.evaluates.toReaches hx.result)

theorem lends_then {Q' : Store → β → Prop} (hx : Ledger.Lends P as s.ledger (x.run s).2.ledger)
    (hf : Ends (.over .any fun _ => False) (x.run s).2 (f (x.run s).1) Q') :
    Ledger.Lends P as s.ledger ((x >>= f).run s).2.ledger :=
  hx.trans_under hf.evaluates.records

theorem access_lends (y : Symbol) (kind : AccessKind) (scope : Int) (pos : Position) :
    Ledger.Lends P [{ kind, scope, pos }] s.ledger ((access y kind scope pos).run s).2.ledger := by
  rw [access_run]
  split
  · split
    · next hok => exact Ledger.lends_access hok
    · exact (Ledger.Under.refl _).lends _
  · exact (Ledger.Under.refl _).lends _

/-- A borrow of a place, whatever is evaluated to find it. -/
theorem borrowOf_lends {here : Int} (h : s.Good) (mutable : Bool) (scope : Int)
    {place : CheckM (Except (List Diagnostic) Placed)}
    (hplace : PlaceProper (.over .any fun s => s = here) place) {isPlace : Bool}
    (hl : isPlace = true) (operand : Operand) (pos : Position) :
    Ledger.Lends (fun s => s = here)
      [{ kind := if mutable then .borrowMutably else .borrow, scope, pos }] s.ledger
      ((borrowOf mutable scope place isPlace operand pos).run s).2.ledger := by
  subst hl
  unfold borrowOf
  refine lends_bind (hplace h) fun found s' h' _ hfound => ?_
  cases found with
  | error faults => exact (Ledger.Under.refl _).lends _
  | ok p =>
    have hkind : ∀ n, (if mutable then AccessKind.borrowMutably else .borrow) ≠ .unlisted n := by
      cases mutable <;> simp
    have haccess : Ends (.over .any fun _ => True) s' (access p.root _ scope pos) _ :=
      access_ends h' trivial hfound.seen hkind trivial
    refine lends_then (access_lends p.root _ scope pos)
      (noFaults_ends (ρ := .over .any fun _ => False) haccess.good haccess.result ?_)
    exact (refTo_ends haccess.good (haccess.evaluates.holds hfound.holds) mutable).bind
      fun t s₃ h₃ _ ht => .pure h₃ (.ok ht)

/-- The value of a binding that lends leaves one record, in the scope of the variable. -/
theorem bindingValue_lends (here : Int) (h : s.Good) (he : e.Fits) (hl : lends e = true) :
    Ledger.Lends (fun s => s = here) (lent s.table.current e) s.ledger
      ((bindingValue here e).run s).2.ledger := by
  unfold lends at hl
  split at hl
  next x pos =>
    rw [lent, if_pos hl]
    have hx := checks_of_fits (ρ :=
      .over .any fun s => s = here) rfl x he.2 x.placed_any fun _ => rfl
    exact borrowOf_lends h false s.table.current (hx.place false) hl (operand here x) pos
  next x pos =>
    rw [lent, if_pos hl]
    have hx := checks_of_fits (ρ :=
      .over .any fun s => s = here) rfl x he.2 x.placed_any fun _ => rfl
    exact borrowOf_lends h true s.table.current (hx.place false) hl (operand here x) pos
  · cases hl

theorem evaluateBinding_lends (h : s.Good) (he : e.Fits) (hl : lends e = true) :
    Ledger.Lends (fun _ => False) (lent s.table.current e) s.ledger
      ((evaluate fun here => bindingValue here e).run s).2.ledger := by
  have hvalue := bindingValue_lends s.ledger.nextTemporary (withTemporary_good h) he hl
  have hstart :=
    (evaluates_withTemporary (.over .any fun s' => s' = s.ledger.nextTemporary) s).records
  exact (hstart.trans_lends hvalue).release

/-- The records of the evaluation itself are gone once the type of the variable is known. -/
theorem variableType_lends (h : s.Good) (label : Label) (type : Option TypeExpr)
    (he : e.Fits) (hl : lends e = true) :
    Ledger.Lends (fun _ => False) (lent s.table.current e) s.ledger
      ((variableType label type (some e)).run s).2.ledger := by
  have hends : ∀ {s : Store}, s.Good →
      Ends (.over .any fun _ => True) s (evaluate fun here => bindingValue here e)
      (Store.Types .any) :=
    fun h => evaluateBinding_ends h he e.placed_any fun _ => trivial
  unfold variableType
  cases type with
  | none =>
    dsimp only
    rw [pure_bind]
    exact lends_then (evaluateBinding_lends h he hl) (inferred_ends (hends h).good (hends h).result)
  | some t =>
    refine lends_bind (convertTyped_ends h t.placed_any) fun d s' h' hr hd => ?_
    rw [← hr.current, pure_bind]
    dsimp only
    split
    · exact (Ledger.Under.refl _).lends _
    · have hvalue := hends h'
      exact lends_then (evaluateBinding_lends h' he hl)
        (declared_ends hvalue.good (hvalue.evaluates.holds hd.holds) hvalue.result trivial _)

end

end Checking

namespace Analysis

section

variable {s : Store} {set : Setting} {plan : Option Plan} {as : List Access}

theorem lends_lift {α β : Type} {x : CheckM α} {f : α → AnalysisM β} {Q : Store → β → Prop}
    (hx : Ledger.Lends (fun _ => False) as s.ledger (x.run s).2.ledger)
    (hf : ReportsUnder .any (fun _ => False) (x.run s).2 (f (x.run s).1) Q)
    (log : List Diagnostic) :
    Ledger.Lends (fun _ => False) as s.ledger
      (((liftM x >>= f : AnalysisM β).run log).run s).2.ledger :=
  hx.trans_under (hf.reaches log).records

/-- Declaring the variable adds no records. -/
theorem bound_lends {check : CheckM Typed}
    (hfound : Ledger.Lends (fun _ => False) as s.ledger (check.run s).2.ledger)
    (hends : Ends (.over .any fun _ => True) s check (Store.Types .any))
    (hplan : ∀ p ∈ plan, p.Stands s s.table.current) (name : String) {kind : SymbolKind}
    (hk : kind.isNominal = false)
    (pos : Position) (mutable initialized : Bool) (log : List Diagnostic) :
    Ledger.Lends (fun _ => False) as s.ledger (((do
      let type ← reported (← check)
      match plan with
      | some plan => settle plan type initialized
      | none => report (← declareLocal name kind pos type mutable initialized) : AnalysisM Unit).run
        log).run
        s).2.ledger := by
  cases plan with
  | none =>
    exact lends_lift hfound
      (issues_declareFound hends.good hends.result name hk trivial mutable
        initialized).toReportsUnder log
  | some p =>
    have hp := Plan.Stands.reaches (hplan p rfl) hends.evaluates.toReaches
    exact lends_lift hfound (settled_reports hends.good hends.result hp initialized) log

/-- The statements that lend, all of which are bindings. -/
theorem checkItem_lends (i : Item) (hi : i.Fits) (h : s.Good)
    (hplan : ∀ p ∈ plan, p.Stands s s.table.current) (hl : i.lends = true) (log : List Diagnostic) :
    Ledger.Lends (fun _ => False) (i.lent s.table.current) s.ledger
      (((checkItem set i plan).run log).run s).2.ledger := by
  cases i with
  | letVar d =>
    rw [checkItem]
    obtain ⟨_, label, type, _ | e, mutable⟩ := d
    · cases hl
    · exact bound_lends (variableType_lends h label type (hi e rfl) hl)
        (variableType_ends h trivial (fun t _ => t.placed_any) hi (fun e _ => e.placed_any)
          fun _ => trivial)
        hplan _ rfl _ _ _ log
  | constant d =>
    rw [checkItem]
    obtain ⟨head, type, _ | e⟩ := d
    · cases hl
    · exact bound_lends (variableType_lends h head.label type (hi e rfl) hl)
        (constantType_ends h trivial (fun t _ => t.placed_any) hi (fun e _ => e.placed_any)
          fun _ => trivial)
        hplan _ rfl _ _ _ log
  | _ => cases hl

end

/-- Whatever is found wrong with a statement, it ends in the scope in which it began, and each
active record was there before, but for the one record of a variable or constant that is bound to a
reference to a place. This one is kept for one symbol under the current scope. The result that is
expected of a return is part of the setting, and the scope of the statement is handed to the checks
of its expressions, so neither outlives it. -/
theorem statement_cleans_up {i : Item} (hi : i.Fits) {s : Store} (h : s.Good) {set : Setting}
    (hset : set.Holds s) {plan : Option Plan} (hplan : ∀ p ∈ plan, p.Stands s s.table.current)
    (log : List Diagnostic) :
    let s' := (((checkItem set i plan).run log).run s).2
    s'.table.current = s.table.current ∧ ∃ root : Int, ∀ id, (s'.ledger.active id).Sublist
        (s.ledger.active id ++ if id = root then i.lent s.table.current else []) := by
  have hreports : Runs .any s (checkItem set i plan) :=
    checkItem_reports i i.placed_any hi h hset hplan fun _ => rfl
  refine ⟨(hreports.reaches log).current, ?_⟩
  have hlends : Ledger.Lends (fun _ => False) (i.lent s.table.current) s.ledger
      (((checkItem set i plan).run log).run s).2.ledger := by
    cases hl : i.lends with
    | true => exact checkItem_lends i hi h hplan hl log
    | false =>
      have hclean : RunsUnder .any (fun _ => False) s (checkItem set i plan) :=
        checkItem_reports i i.placed_any hi h hset hplan
          fun hl' => absurd (hl.symm.trans hl') Bool.false_ne_true
      exact (hclean.reaches log).records.lends _
  obtain ⟨root, hroot⟩ := hlends
  exact ⟨root, fun id => by simpa using hroot id⟩

/-- A second reference to a token that is already lent leaves a second record. -/
theorem statement_cleans_up_lent_twice :
    let s' := (tokenBorrowed.past (checkItem {} borrowing none)).store
    (tokenBorrowed.store.ledger.active 0).length = 1 ∧ (s'.ledger.active 0).length = 2 ∧
      ∃ root : Int, ∀ id, (s'.ledger.active id).Sublist (tokenBorrowed.store.ledger.active id ++
        if id = root then borrowing.lent tokenBorrowed.store.table.current else []) := by
  refine ⟨by decide +kernel, by decide +kernel, ?_⟩
  have hset : Setting.Holds {} tokenBorrowed.store := by simp [Setting.Holds]
  exact (statement_cleans_up borrowing_fits tokenBorrowed_good.1 hset (by simp) tokenBorrowed.log).2

end Analysis

end UnitCheck
