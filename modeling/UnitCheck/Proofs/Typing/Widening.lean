import UnitCheck.Proofs.Typing.Identity

/-!
# Types that may stand for each other

Whether one type may be assigned to another one depends on what they stand for alone. `Ty.Widens`
says it of types without a registry.

Widening compares labels first: `Label.Wider` is the order of the labels. The parts of tuples are
widened in turn, and the parts of all other types must be the same (`widens_iff`).

* `Consistent.assignable_iff` — the registry's answer in terms of it. Widening is kept when
  variables are replaced, so that no later binding takes it back.
-/

namespace UnitCheck

open Ty Relation List

variable {as bs : List Ty} {d s : Ty}

namespace Ty

/-! ## Types without a registry -/

/-- A value of the second type may stand where the first one is expected. -/
inductive Widens : Ty → Ty → Prop where
  | same {d s : Ty} (h : Same d s) : Widens d s
  | never (d : Ty) : Widens d .never
  | float : Widens .float .int
  /-- A mutable reference does for a shared one. -/
  | ref {d s : Ty} {m n : Bool} {l k : Option String} (hm : (!m || n) = true) (h : Same d s) :
      Widens (.ref d m l) (.ref s n k)
  /-- Any length does where none is declared. -/
  | array {d s : Ty} {m n : Option Int} (hm : (m.isNone || m == n) = true) (h : Same d s) :
      Widens (.array d m) (.array s n)
  | tuple {ds ss : List Ty} (hlen : ds.length = ss.length)
      (h : ∀ p ∈ ds.zip ss, Widens p.1 p.2) : Widens (.tuple ds) (.tuple ss)

theorem Widens.mapVars (f : TypeVar → Ty) (h : Widens d s) :
    Widens (d.mapVars f) (s.mapVars f) := by
  induction h with
  | same h => exact .same (h.mapVars f)
  | never d => exact .never _
  | float => exact .float
  | ref hm h => exact .ref hm (h.mapVars f)
  | array hm h => exact .array hm (h.mapVars f)
  | tuple hlen _ ih =>
    rw [Ty.mapVars, Ty.mapVars, mapVarsAll_eq_map, mapVarsAll_eq_map]
    exact .tuple (by rw [length_map, length_map, hlen]) (forall_mem_zip_map ih)

/-! ## One level -/

/-- What a value with the second label may be used as, as far as labels go. -/
inductive Label.Wider : Label → Label → Prop where
  | refl (l : Label) : Wider l l
  | float : Wider (.basic .float) (.basic .int)
  | ref : Wider (.ref false) (.ref true)
  | array (n : Option Int) : Wider (.array none) (.array n)

theorem Label.wider_iff {l k : Label} : l.Wider k ↔ l = k ∨ (l = .basic .float ∧ k = .basic .int) ∨
    (l = .ref false ∧ k = .ref true) ∨ (l = .array none ∧ ∃ n, k = .array n) := by
  constructor
  · rintro (_ | _ | _ | n)
    · exact .inl rfl
    · simp
    · simp
    · exact .inr (.inr (.inr ⟨rfl, n, rfl⟩))
  · rintro (rfl | ⟨rfl, rfl⟩ | ⟨rfl, rfl⟩ | ⟨rfl, n, rfl⟩)
    exacts [.refl _, .float, .ref, .array n]

theorem wider_ref_iff {m n : Bool} : Label.Wider (.ref m) (.ref n) ↔ (!m || n) = true := by
  constructor
  · rintro (_ | _) <;> simp
  · cases m <;> cases n
    exacts [fun _ => .refl _, fun _ => .ref, fun h => absurd h (by decide), fun _ => .refl _]

theorem wider_array_iff {m n : Option Int} :
    Label.Wider (.array m) (.array n) ↔ (m.isNone || m == n) = true := by
  constructor
  · rintro (_ | _) <;> simp
  · cases m with
    | none => exact fun _ => .array n
    | some i =>
      intro h
      obtain rfl : some i = n := by simpa using h
      exact .refl _

/-- How the parts of a type are compared when it is widened. -/
def PartsWiden : Label → Ty → Ty → Prop
  | .tuple _ => Widens
  | _ => Same

theorem Label.Wider.partsWiden {a b : Label} (h : a.Wider b) : PartsWiden a = PartsWiden b := by
  cases h <;> rfl

theorem PartsWiden.of_same {l : Label} {x y : Ty} (h : Same x y) : PartsWiden l x y := by
  cases l with
  | tuple => exact .same h
  | _ => exact h

/-- **Widening, one level at a time.** -/
theorem widens_iff : Widens d s ↔ d = .invalid ∨ s = .invalid ∨ s = .never ∨
      (d.label.Wider s.label ∧ List.Forall₂ (PartsWiden d.label) d.parts s.parts) := by
  constructor
  · intro h
    cases h with
    | same h =>
      rcases same_iff.mp h with hd | hs | ⟨hlab, hparts⟩
      · exact .inl hd
      · exact .inr (.inl hs)
      · exact .inr (.inr (.inr ⟨hlab ▸ .refl _, hparts.imp fun _ _ => .of_same⟩))
    | never d => exact .inr (.inr (.inl rfl))
    | float => exact .inr (.inr (.inr ⟨.float, .nil⟩))
    | ref hm h => exact .inr (.inr (.inr ⟨wider_ref_iff.mpr hm, .cons h .nil⟩))
    | array hm h => exact .inr (.inr (.inr ⟨wider_array_iff.mpr hm, .cons h .nil⟩))
    | @tuple ds ss hlen h =>
      refine .inr (.inr (.inr ⟨?_, forall₂_iff_zip.mpr ⟨hlen, fun hp => h _ hp⟩⟩))
      rw [label, label, hlen]
      exact .refl _
  · rintro (rfl | rfl | rfl | ⟨hlab, hparts⟩)
    · exact .same (.left s)
    · exact .same (.right d)
    · exact .never d
    -- the label of the source tells which rule it is
    · generalize hd : d.label = l at hlab hparts
      generalize hs : s.label = k at hlab
      cases hlab with
      | refl =>
        cases l with
        | tuple n =>
          cases d <;> cases hd
          cases s with
          | tuple ss =>
            exact .tuple hparts.length_eq fun p hp => (forall₂_iff_zip.mp hparts).2 hp
          | _ => cases hs
        | _ => exact .same (same_iff.mpr (.inr (.inr ⟨hd.trans hs.symm, hparts⟩)))
      | float =>
        rw [eq_basic_of_label hd, eq_basic_of_label hs]
        exact .float
      | ref =>
        cases d <;> cases hd
        cases s <;> cases hs
        exact .ref rfl (forall₂_cons.mp hparts).1
      | array n =>
        cases d <;> cases hd
        cases s <;> cases hs
        exact .array rfl (forall₂_cons.mp hparts).1

/-- What holds of a type whenever it holds of its parts holds of every type. -/
theorem parts_induction {P : Ty → Prop} (h : ∀ t, (∀ u ∈ t.parts, P u) → P t) (t : Ty) : P t :=
  induction_on_parts (fun _ => h _ fun _ hu => by simp [parts] at hu) (fun t _ => h t) t

end Ty

namespace Registry

/-! ## Assignability -/

/-- A registered type without bound variables. -/
structure Plain (r : Registry) (t : Ty) : Prop where
  holds : r.Holds t
  unbound : ∀ v, t.Mentions v → r.binding? v = none

section

variable {r r' : Registry} {t : Ty}

theorem Plain.applied_eq (h : Plain r t) : r.applied t = t := by
  rw [applied_eq_mapVars]
  exact mapVars_eq_self fun v hm => applied_free (h.unbound v hm)

theorem Plain.part (hr : r.Consistent) (h : Plain r t) {u : Ty} (hu : u ∈ t.parts) : Plain r u :=
  ⟨hr.holds_part h.holds hu, fun v hm => h.unbound v (.of_part hu hm)⟩

theorem Plain.grows (h : Plain r t) (hg : r.Grows r') : Plain r' t :=
  ⟨hg.holds h.holds, fun v hm => by rw [hg.binding?, h.unbound v hm]⟩

theorem Plain.identical_iff (hr : r.Consistent) (hd : Plain r d) (hs : Plain r s) :
    r.identical d s = true ↔ Same d s := by
  rw [hr.identical_iff_same hd.holds hs.holds, hd.applied_eq, hs.applied_eq]

theorem Plain.identical_part (hr : r.Consistent) (hd : Plain r d) (hs : Plain r s) {x y : Ty}
    (hx : x ∈ d.parts) (hy : y ∈ s.parts) : r.identical x y = true ↔ Same x y :=
  (hd.part hr hx).identical_iff hr (hs.part hr hy)

theorem widensAll_iff (ds ss : List Ty) :
    r.widensAll ds ss = true ↔ List.Forall₂ (fun d s => r.widens d s = true) ds ss := by
  induction ds generalizing ss with
  | nil => cases ss <;> simp [widensAll]
  | cons d ds ih => cases ss <;> simp [widensAll, ih]

/-- The check for widening decides the relation, on types without bound variables. -/
theorem Plain.widens_iff (hr : r.Consistent) (hd : Plain r d) (hs : Plain r s) :
    r.widens d s = true ↔ Widens d s := by
  induction d using parts_induction generalizing s with
  | h d ih =>
    -- the check starts with the same comparison
    by_cases heq : d = s
    · subst heq
      exact iff_of_true (by cases d <;> simp [widens]) (.same (.refl d))
    have hid := hd.identical_iff hr hs
    rw [same_iff] at hid
    rw [Ty.widens_iff, Label.wider_iff]
    cases d with
    | basic b => cases s <;> simp [widens, isInvalid, label, parts, or_assoc, heq]; simp_all
    | tuple ds =>
      cases s with
      | tuple ss =>
        have hall : List.Forall₂ (fun x y => r.widens x y = true) ds ss ↔
          List.Forall₂ Widens ds ss :=
          forall₂_iff_of_mem fun x hx y hy => ih x hx (hd.part hr hx) (hs.part hr hy)
        simp [widens, isInvalid, label, parts, heq, PartsWiden, widensAll_iff, hall]
        exact List.Forall₂.length_eq
      | _ => simp [widens, isInvalid, label]
    | ref x m l =>
      cases s with
      | ref y n k =>
        have hxy := hd.identical_part hr hs (.head []) (.head [])
        cases m <;> cases n <;> simp [widens, isInvalid, label, parts, PartsWiden, hxy, heq]
      | _ => simp [widens, isInvalid, label]
    | array x m =>
      cases s with
      | array y n =>
        have hxy := hd.identical_part hr hs (.head []) (.head [])
        simp [widens, isInvalid, label, parts, PartsWiden, hxy, heq, or_comm]
      | _ => simp [widens, isInvalid, label]
    | var v => cases s <;> simp_all [widens, isInvalid, label, parts, PartsWiden]
    | func ps q => cases s <;> simp_all [widens, isInvalid, label, parts, PartsWiden]
    | named n as => cases s <;> simp_all [widens, isInvalid, label, parts, PartsWiden]

/-- What a type is resolved to is without bound variables. -/
theorem Consistent.plain_applied (h : r.Consistent) (ht : r.Holds t) (hg : r.Grows r')
    (hheld : r'.Holds (r.applied t)) : Plain r' (r.applied t) :=
  ⟨hheld, fun v hm => by rw [hg.binding?, (h.mentions_applied ht v hm).2]⟩

/-- **Assignability** is the widening of what two types stand for. -/
theorem Consistent.assignable_iff (h : r.Consistent) (hd : r.Holds d) (hs : r.Holds s) :
    ((assignable d s).run r).1 = true ↔ Widens (r.applied d) (r.applied s) := by
  have hrd := h.resolve_run hd
  have hrs := hrd.consistent.resolve_run (hrd.grows.holds hs)
  have hrun : ((assignable d s).run r).1 = ((resolve s).run ((resolve d).run r).2).2.widens
      ((resolve d).run r).1 ((resolve s).run ((resolve d).run r).2).1 := rfl
  have hplain := h.plain_applied hd (hrd.grows.trans hrs.grows) (hrs.grows.holds hrd.holds)
  have hplain' := hrd.consistent.plain_applied (hrd.grows.holds hs) hrs.grows hrs.holds
  rw [hrun, hrd.type_eq, hrs.type_eq, hrd.grows.applied] at *
  exact hplain.widens_iff hrs.consistent hplain'

theorem Consistent.widens_mono (h : r.Consistent) (h' : r'.Consistent) (he : r.Extends r')
    (hd : r.Holds d) (hs : r.Holds s) (hw : Widens (r.applied d) (r.applied s)) :
    Widens (r'.applied d) (r'.applied s) := by
  rw [h.applied_mono h' he hd, h.applied_mono h' he hs]
  exact hw.mapVars _

end

end Registry

end UnitCheck
