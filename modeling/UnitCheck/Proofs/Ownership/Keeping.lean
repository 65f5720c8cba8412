import UnitCheck.Proofs.Ownership.Records

/-!
# What is kept of a holding

An access adds a record under its scope or, if it is a move, takes all records away; a release takes
away those under one scope. So no record under another scope (`Holding.apart`) is missing as long as
the variable has not been moved, and what a holding is about (`Holding.label`) never changes.
-/

namespace UnitCheck

open List Option

namespace Holding

/-- What a holding is about: the name of the variable, and whether it may be assigned to again. -/
def label (h : Holding) : String × Bool := (h.name, h.mutable)

open scoped Classical in
/-- The records that were made under other scopes than those that satisfy `P`. -/
noncomputable def apart (h : Holding) (P : Int → Prop) : List Access :=
  h.active.filter fun a => ¬ P a.scope

section

variable {P Q : Int → Prop} {h h' : Holding} {scope : Int}

theorem apart_sublist (P : Int → Prop) (h : Holding) :
    (h.apart P).Sublist h.active := filter_sublist

theorem apart_none (h : Holding) : h.apart (fun _ => False) = h.active := by simp [apart]

/-- Fewer records are looked at. -/
theorem apart_anti (hpq : ∀ scope, P scope → Q scope) (h : Holding) :
    (h.apart Q).Sublist (h.apart P) := by
  refine monotone_filter_right _ fun a ha => ?_
  simp only [decide_eq_true_eq] at ha ⊢
  exact fun hp => ha (hpq _ hp)

open scoped Classical in
theorem apart_trans {as : List Access} (hkept : (h.apart P).Sublist h'.active)
    (hkept' : (h'.apart P).Sublist as) : (h.apart P).Sublist as := by
  have hsame : (h.apart P).filter (fun a => ¬ P a.scope) = h.apart P := by simp [apart]
  rw [← hsame]
  exact (hkept.filter _).trans hkept'

/-- The records under one of the scopes are released. -/
theorem apart_release (hscope : P scope) (h : Holding) :
    (h.apart P).Sublist (h.active.filter fun a => a.scope ≠ scope) := by
  refine monotone_filter_right _ fun a ha => ?_
  simp only [decide_eq_true_eq] at ha ⊢
  exact fun heq => ha (heq ▸ hscope)

/-- A scope without records need not be looked at. -/
theorem apart_or (hfree : ∀ a ∈ h.active, a.scope ≠ scope) :
    h.apart (fun s => s = scope ∨ P s) = h.apart P := by
  refine filter_congr fun a ha => ?_
  simp [hfree a ha]

end

/-- What a granted access keeps. A variable that may not be assigned to again is written only before
it has a value. -/
theorem access_keeps {h h' : Holding} {a : Access} (hok : h.access a = .ok h') :
    h'.label = h.label ∧ (h.initialized = true → h'.initialized = true) ∧ h.isMoved = false ∧
      (h'.isMoved = false → h'.active = h.active ++ [a]) ∧
      (a.kind = .write → h.mutable = false → h.initialized = false) := by
  cases granted_of_access hok with
  | shared _ hkind =>
    rcases hkind with hkind | hkind <;> simp_all [label, record, isMoved]
  | alone | move => simp_all [label, record, isMoved]
  | write _ _ hagain => cases hm : h.mutable <;> simp_all [label, record, isMoved]

theorem join_label (h : Holding) (other : Flow) : (h.join other).label = h.label := by
  obtain ⟨name, mutable, initialized, movedAt, active⟩ := h
  obtain ⟨init, pos⟩ := other
  cases movedAt <;> cases pos <;> rfl

end Holding

namespace Ledger

/-- What a ledger knows a symbol as. -/
def label? (l : Ledger) (id : Int) : Option (String × Bool) := (l.get? id).map Holding.label

/-- The same variables are kept under the same names, and no temporary scope is handed out again. -/
structure Continues (l l' : Ledger) : Prop where
  label : ∀ id, l'.label? id = l.label? id
  temporary_le : l'.nextTemporary ≤ l.nextTemporary

section

variable {l l' : Ledger}

theorem Continues.isTracked (h : l.Continues l') (id : Int) : l'.isTracked id = l.isTracked id := by
  have hlabel := congrArg Option.isSome (h.label id)
  rwa [label?, label?, isSome_map, isSome_map] at hlabel

theorem Continues.get? (h : l.Continues l') {id : Int} {k : Holding} (hget : l.get? id = some k) :
    ∃ k', l'.get? id = some k' ∧ k'.label = k.label := by
  have hlabel := h.label id
  rw [label?, label?, hget] at hlabel
  exact map_eq_some_iff.mp hlabel

end

theorem continues_mapHoldings (l : Ledger) {f : Int → Holding → Holding}
    (hf : ∀ id h, (f id h).label = h.label) : l.Continues (l.mapHoldings f) where
  label id := by
    rw [label?, label?, get?_mapHoldings, Option.map_map]
    congr 1
    funext h
    exact hf id h
  temporary_le := Int.le_refl _

theorem continues_release (l : Ledger) (scope : Int) : l.Continues (l.release scope) :=
  continues_mapHoldings l fun _ _ => rfl

theorem continues_restore (l : Ledger) (s : Snapshot) : l.Continues (l.restore s) := by
  refine continues_mapHoldings l fun id h => ?_
  split <;> rfl

theorem continues_join (l : Ledger) (other : Snapshot) : l.Continues (l.join other) := by
  refine continues_mapHoldings l fun id h => ?_
  split
  · exact h.join_label _
  · rfl

theorem nextTemporary_put (l : Ledger) (symbol : Int) (h : Holding) :
    (l.put symbol h).nextTemporary = l.nextTemporary := by
  rw [put]
  split <;> rfl

theorem continues_access {l l' : Ledger} {symbol : Int} {a : Access}
    (hok : l.access symbol a = .ok l') :
    l.Continues l' := by
  obtain ⟨h, h', hget, hacc, rfl⟩ := get?_of_access hok
  refine ⟨fun id => ?_, Int.le_of_eq (nextTemporary_put l symbol h')⟩
  rw [label?, get?_put]
  split
  next heq =>
    rw [heq, label?, hget, map_some, map_some, (Holding.access_keeps hacc).1]
  · rfl

end Ledger

end UnitCheck
