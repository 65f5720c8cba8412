import Mathlib.Data.List.Forall2
import UnitCheck.Proofs.Mirror
import UnitCheck.Proofs.Scoping.Soundness

/-!
# Paths in two tables

What a path stands for depends on little of a table. `Table.Facing S R V t t'` relates the scopes of
two tables by `S` and their symbols by `R`: names for which `V` holds lead from related scopes to
related symbols. A path of such names then leads to related symbols, or nowhere in both tables
(`Facing.resolveFrom_matches`).
-/

namespace UnitCheck.Table

open List

structure Facing (S R : Nat → Nat → Prop) (V : Nat → String → Prop) (t t' : Table) : Prop where
  eq_iff : ∀ {m m' k k' : Nat}, S m m' → S k k' → (m = k ↔ m' = k')
  enclosing : ∀ {m m' : Nat}, S m m' → List.Forall₂ (fun s s' : Scope => S s.id s'.id ∧
    ∀ name, (∀ j, V j name) → Paired R (s.names.lookup name) (s'.names.lookup name))
    (t.enclosing m) (t'.enclosing m')
  lookupIn : ∀ {m m' : Nat}, S m m' → ∀ name, V m name →
    Paired R (t.lookupIn m name) (t'.lookupIn m' name)
  kind_eq : ∀ {i i' : Nat}, R i i' → (t'.symbol i').kind = (t.symbol i).kind
  isPublic_eq : ∀ {i i' : Nat}, R i i' → (t'.symbol i').isPublic = (t.symbol i).isPublic
  members : ∀ {i i' : Nat}, R i i' → Paired S (t.symbol i).members (t'.symbol i').members

namespace Facing

variable {S R : Nat → Nat → Prop} {V : Nat → String → Prop} {t t' : Table} {m m' c c' : Nat}

section

variable (h : t.Facing S R V t') {name : String}
include h

/-- A name that is in view is looked up with the same result from scopes that face each other. -/
theorem lookupFrom_matches (hm : S m m') (hname : ∀ j, V j name) :
    Matches R (t.lookupFrom m name) (t'.lookupFrom m' name) := by
  have hpaired : Paired R ((t.enclosing m).findSome? (·.names.lookup name))
      ((t'.enclosing m').findSome? (·.names.lookup name)) := by
    have hscopes := h.enclosing hm
    generalize t.enclosing m = ss at hscopes ⊢
    generalize t'.enclosing m' = ss' at hscopes ⊢
    induction hscopes with
    | nil => exact .none
    | cons hs _ ih =>
      have hfound := hs.2 name hname
      rw [findSome?_cons, findSome?_cons]
      revert hfound
      generalize List.lookup name _ = x
      generalize List.lookup name _ = x'
      rintro (hid | _)
      · exact .some hid
      · exact ih
  unfold lookupFrom
  dsimp only
  revert hpaired
  generalize (t.enclosing m).findSome? (·.names.lookup name) = x
  generalize (t'.enclosing m').findSome? (·.names.lookup name) = x'
  rintro (hid | _)
  · exact .ok hid
  · exact .error

/-- Scopes that face each other stand in scopes that do. -/
theorem within_eq (hm : S m m') {k k' : Nat} (hk : S k k') : t'.within m' k' = t.within m k := by
  have hself : ∀ {a a' : Nat}, S a a' → ((a' : Int) == (k' : Int)) = ((a : Int) == (k : Int)) := by
    intro a a' ha
    rw [Bool.eq_iff_iff, beq_iff_eq, beq_iff_eq, Int.natCast_inj, Int.natCast_inj]
    exact (h.eq_iff ha hk).symm
  have hany : ((t'.enclosing m').any fun s => (s.id : Int) == (k' : Int)) =
      (t.enclosing m).any fun s => (s.id : Int) == (k : Int) := by
    have hscopes := h.enclosing hm
    generalize t.enclosing m = ss at hscopes ⊢
    generalize t'.enclosing m' = ss' at hscopes ⊢
    induction hscopes with
    | nil => rfl
    | cons hs _ ih => rw [any_cons, any_cons, hself hs.1, ih]
  unfold within
  rw [hany, hself hm]
  simp

theorem reachable_eq (hm : S m m') (hc : R c c') {i i' : Nat} (hi : R i i') :
    t'.reachable m' (t'.symbol c') (t'.symbol i') = t.reachable m (t.symbol c) (t.symbol i) := by
  have hmembers := h.members hc
  unfold reachable
  rw [h.isPublic_eq hi, h.kind_eq hi]
  revert hmembers
  generalize (t.symbol c).members = x
  generalize (t'.symbol c').members = x'
  rintro (hk | _)
  · simp only [h.within_eq hm hk]
  · rfl

theorem member?_paired (hc : R c c') (hname : ∀ k, (t.symbol c).members = some k → V k name) :
    Paired R (t.member? (t.symbol c) name) (t'.member? (t'.symbol c') name) := by
  have hmembers := h.members hc
  unfold member?
  revert hmembers hname
  generalize (t.symbol c).members = x
  generalize (t'.symbol c').members = x'
  rintro hname (hk | _)
  · exact h.lookupIn hk name (hname _ rfl)
  · exact .none

/-- The rest of a path leads to symbols that go with each other, if its names are in view. -/
theorem resolveMembers_matches (hm : S m m') (path : List String) (hc : R c c') {rest : List String}
    (hrest : ∀ name ∈ rest, ∀ i k, (t.symbol i).members = some k → V k name) :
    Matches R (t.resolveMembers m path c rest) (t'.resolveMembers m' path c' rest) := by
  induction rest generalizing path c c' with
  | nil => exact .ok hc
  | cons segment rest ih =>
    rw [forall_mem_cons] at hrest
    rw [resolveMembers, resolveMembers]
    rw [h.kind_eq hc]
    split
    · exact .error
    · have hmember := h.member?_paired hc (hrest.1 c)
      revert hmember
      generalize t.member? (t.symbol c) segment = x
      generalize t'.member? (t'.symbol c') segment = x'
      rintro (hi | _)
      · dsimp only
        rw [h.reachable_eq hm hc hi]
        split
        · exact ih (path ++ [segment]) hi hrest.2
        · exact .error
      · exact .error

/-- Paths from scopes that face each other. -/
theorem resolveFrom_matches (hm : S m m') {path : List String}
    (hhead : ∀ first ∈ path.head?, ∀ j, V j first)
    (htail : ∀ name ∈ path.tail, ∀ i k, (t.symbol i).members = some k → V k name) :
    Matches R (t.resolveFrom m path) (t'.resolveFrom m' path) := by
  cases path with
  | nil => exact .error
  | cons first rest =>
    have hlookup := h.lookupFrom_matches hm (hhead first rfl)
    rw [resolveFrom, resolveFrom]
    revert hlookup
    generalize t.lookupFrom m first = x
    generalize t'.lookupFrom m' first = x'
    rintro (hc | _)
    · exact h.resolveMembers_matches hm [first] hc htail
    · exact .error

end

end Facing

end UnitCheck.Table
