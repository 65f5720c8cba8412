import UnitCheck.Proofs.Typing.Assignability
import UnitCheck.Proofs.Typing.Symmetry

/-!
# Attempts that fail

A unification that fails is not taken back: what it has bound by then stays bound.

* `Consistent.unify_error_frame` — a type that stands for something else afterwards has a variable
  in common with the operands, and the conflict is below their heads.
* `Stuck` — the conflict in what the operands stand for. A run that fails gets stuck
  (`UnifyRun.stuck`), and stuck operands fail again without binding anything (`UnifyRun.of_stuck`).
* `UnifyRun.transfer` — whether a run succeeds depends on the operands and the bindings alone.
* `attempt_error_cases` — unifying for an assignment between types that are no tuples binds nothing
  when it fails, or leaves types neither of which can be assigned to the other any more.
-/

namespace UnitCheck

open Ty Relation List

namespace Registry

variable {a b d s t x y u : Ty} {as bs : List Ty} {r : Registry} {e : UnifyFault}
  {out : Except UnifyFault (List Ty)}
  {r' : Registry}

section

variable {r' : Registry}

theorem Consistent.flexible_applied_iff (h : r.Consistent) (ht : r.Holds t) :
    Flexible (r.applied t) ↔ Flexible (r.head t) := by
  simp only [Flexible, h.applied_eq_var_iff ht]

/-- A failure is at the heads or below them. -/
theorem UnifyRun.error_cases (run : UnifyRun r [a] [b] (.error e) r') :
    Settles r (r.head a) (r.head b) (.error e) r' ∨ Decomposes (r.head a) (r.head b) := by
  generalize ho : (.error e : Except UnifyFault (List Ty)) = out at run
  cases run with
  | settled _ rest =>
    cases rest
    cases ho
  | failed hs =>
    cases ho
    exact .inl hs
  | parts hd _ _ => exact .inr hd
  | partsFailed hd _ => exact .inr hd

theorem Consistent.unify_error_run (h : r.Consistent) (ha : r.Holds a) (hb : r.Holds b)
    (hrun : (unify a b).run.run r = (.error e, r')) : UnifyRun r [a] [b] (.error e) r' := by
  have run := unify_runs h ha hb
  rwa [hrun] at run

/-- **What a failed unification changes.** -/
theorem Consistent.unify_error_frame (h : r.Consistent) (ha : r.Holds a) (hb : r.Holds b)
    (hrun : (unify a b).run.run r = (.error e, r')) (ht : r.Holds t)
    (hne : r'.applied t ≠ r.applied t) :
    (r.head a).label = (r.head b).label ∧ ∃ v : TypeVar, v.rigid = false ∧
      (r.applied t).Mentions v ∧ ((r.applied a).Mentions v ∨ (r.applied b).Mentions v) := by
  have run := h.unify_error_run ha hb hrun
  have hready : Ready r [a] [b] := .pair h ha hb
  have hkept := run.preserves hready
  refine ⟨?_, ?_⟩
  · rcases run.error_cases with hs | hd
    · exact absurd
        ((hs.of_error h hready.holds_head_left hready.holds_head_right).grows.applied t) hne
    · exact hd.label
  · -- the variables that were bound are those that the operands lead to
    have honly :=
      run.bindsOnly hready (P := fun x => ReflTransGen r.Child a x ∨ ReflTransGen r.Child b x)
      (fun _ _ hx hc => hx.imp (·.tail hc) (·.tail hc)) (forall_mem_singleton.mpr (.inl .refl))
      (forall_mem_singleton.mpr (.inr .refl))
    by_contra hnone
    refine hne ?_
    rw [h.applied_mono hkept.consistent hkept.extends_ ht]
    refine mapVars_eq_self fun v hm => ?_
    obtain ⟨hv, hfree⟩ := h.mentions_applied ht v hm
    refine applied_free ?_
    by_cases hrigid : v.rigid = true
    · exact hkept.consistent.binding?_of_rigid (hkept.extends_.holds hv) hrigid
    · refine (honly.spares hv fun hreach =>
        hnone ⟨v, Bool.eq_false_iff.mpr hrigid, hm, ?_⟩).trans hfree
      rw [← h.occurs_iff_mentions ha, ← h.occurs_iff_mentions hb, h.occurs_iff hfree ha,
        h.occurs_iff hfree hb]
      exact hreach

end

/-! ## Conflicts -/

/-- Two types that cannot be unified, as their heads show. -/
inductive Conflict : Ty → Ty → Prop where
  | clash {a b : Ty} (hfa : ¬ Flexible a) (hfb : ¬ Flexible b) (hna : a ≠ .invalid)
      (hnb : b ≠ .invalid) (hlab : a.label ≠ b.label) : Conflict a b
  | left {v : TypeVar} {t : Ty} (hv : v.rigid = false) (hne : t ≠ .var v) (hm : t.Mentions v) :
      Conflict (.var v) t
  | right {v : TypeVar} {t : Ty} (hv : v.rigid = false) (hne : t ≠ .var v) (hm : t.Mentions v) :
      Conflict t (.var v)

/-- Operands without bound variables of which the first pair that is not the same is in conflict. -/
inductive Stuck : List Ty → List Ty → Prop where
  | here {a b : Ty} {as bs : List Ty} (h : Conflict a b) : Stuck (a :: as) (b :: bs)
  | inside {a b : Ty} {as bs : List Ty} (hlab : a.label = b.label) (h : Stuck a.parts b.parts) :
      Stuck (a :: as) (b :: bs)
  | behind {a b : Ty} {as bs : List Ty} (h : Same a b) (rest : Stuck as bs) :
    Stuck (a :: as) (b :: bs)

theorem Conflict.symm (h : Conflict a b) : Conflict b a := by
  cases h with
  | clash hfa hfb hna hnb hlab => exact .clash hfb hfa hnb hna hlab.symm
  | left hv hne hm => exact .right hv hne hm
  | right hv hne hm => exact .left hv hne hm

/-- A variable that can be bound is in conflict with types that it is part of. -/
theorem Conflict.mentions {v : TypeVar} (h : Conflict (.var v) t) (hv : v.rigid = false) :
    t.Mentions v := by
  cases h with
  | clash hfa => exact absurd ⟨v, rfl, hv⟩ hfa
  | left _ _ hm => exact hm
  | right _ hne hm => exact absurd (mentions_var.mp hm) fun heq => hne (heq ▸ rfl)

/-- Types that are in conflict are not the same. -/
theorem Conflict.not_same (h : Conflict a b) : ¬ Same a b := by
  -- a variable is the same as no other type, and no part of the invalid one
  have hvar : ∀ {v : TypeVar} {t : Ty}, t ≠ .var v → t.Mentions v → ¬ Same (.var v) t := by
    intro v t hne hm hsame
    rcases same_iff.mp hsame with heq | rfl | ⟨hlab, _⟩
    · cases heq
    · cases hm
    · exact hne (eq_var_of_label hlab.symm)
  cases h with
  | clash _ _ hna hnb hlab =>
    rw [same_iff]
    exact fun hsame => hlab ((hsame.resolve_left hna).resolve_left hnb).1
  | left _ hne hm => exact hvar hne hm
  | right _ hne hm => exact fun hsame => hvar hne hm hsame.symm

theorem Stuck.symm (h : Stuck as bs) : Stuck bs as := by
  induction h with
  | here h => exact .here h.symm
  | inside hlab _ ih => exact .inside hlab.symm ih
  | behind h _ ih => exact .behind h.symm ih

theorem not_stuck_nil : ¬ Stuck [] bs := nofun

theorem Stuck.not_same (h : Stuck as bs) : ¬ List.Forall₂ Same as bs := by
  induction h with
  | here h => exact fun hall => h.not_same (forall₂_cons.mp hall).1
  | inside hlab h ih =>
    intro hall
    rcases same_iff.mp (forall₂_cons.mp hall).1 with rfl | rfl | ⟨_, hparts⟩
    · exact not_stuck_nil h
    · exact not_stuck_nil h.symm
    · exact ih hparts
  | behind _ _ ih => exact fun hall => ih (forall₂_cons.mp hall).2

section

variable {r₁ : Registry}

section

variable (h : Ready r (a :: as) (b :: bs))
include h

/-- Where heads cannot be settled, what they stand for in the end is in conflict. -/
theorem Ready.settles_conflict
    (hs : Settles r (r.head a) (r.head b) (.error e) r₁) :
    Conflict (r₁.applied a) (r₁.applied b) := by
  have hc := h.consistent
  have hg := (hs.of_error hc h.holds_head_left h.holds_head_right).grows
  rw [hg.applied, hg.applied]
  -- a variable that is to be bound is part of the other type
  have hloop : ∀ {v : TypeVar} {x y : Ty}, r.Holds x → r.Holds y → r.head x = .var v →
      r.head x ≠ r.head y → r.occurs v (r.head y) = true →
      r.applied x = .var v ∧ r.applied y ≠ .var v ∧ (r.applied y).Mentions v := by
    intro v x y hx hy hv hne hocc
    rw [hc.occurs_iff_mentions (hc.holds_head hy), hc.applied_head hy] at hocc
    exact ⟨(hc.applied_eq_var_iff hx).mpr hv,
      fun heq => hne (hv.trans ((hc.applied_eq_var_iff hy).mp heq).symm), hocc⟩
  generalize hA : r.head a = A, hB : r.head b = B at hs
  cases hs with
  | recursive v t hne _ _ ht hocc _ =>
    obtain ⟨hv, hside⟩ := target?_cases ht
    subst hA hB
    rcases hside with ⟨heq, rfl⟩ | ⟨heq, rfl⟩
    · obtain ⟨hva, hne, hm⟩ := hloop h.holds_left h.holds_right heq hne hocc
      rw [hva]
      exact .left hv hne hm
    · obtain ⟨hvb, hne, hm⟩ := hloop h.holds_right h.holds_left heq hne.symm hocc
      rw [hvb]
      exact .right hv hne hm
  | clash _ hna hnb ht hlab _ =>
    subst hA hB
    obtain ⟨hfa, hfb⟩ := target?_eq_none_iff.mp ht
    refine .clash ?_ ?_ ?_ ?_ ?_
    · rwa [hc.flexible_applied_iff h.holds_left]
    · rwa [hc.flexible_applied_iff h.holds_right]
    · rwa [Ne, hc.applied_eq_invalid_iff h.holds_left]
    · rwa [Ne, hc.applied_eq_invalid_iff h.holds_right]
    · rwa [hc.label_applied_head h.holds_left, hc.label_applied_head h.holds_right]

/-- Heads in conflict, or of one label, are settled only if they are the same. -/
theorem Ready.settles_same (hs : Settles r (r.head a) (r.head b) (.ok u) r₁)
    (hor : Conflict (r.applied a) (r.applied b) ∨ (r.applied a).label = (r.applied b).label) :
    Same (r.applied a) (r.applied b) := by
  have hc := h.consistent
  rw [hc.label_applied_head h.holds_left, hc.label_applied_head h.holds_right] at hor
  -- the variable that would be bound is not part of the other type
  have hbound : ∀ {v : TypeVar} {x y : Ty}, r.Holds x → r.Holds y → v.rigid = false →
      r.head x = .var v → r.head x ≠ r.head y → r.occurs v (r.head y) = false →
      ¬ (Conflict (r.applied x) (r.applied y) ∨ (r.head x).label = (r.head y).label) := by
    intro v x y hx hy hv heq hne hocc hor
    rcases hor with hor | hlab
    · rw [(hc.applied_eq_var_iff hx).mpr heq] at hor
      have hm := hor.mentions hv
      rw [← hc.applied_head hy, ← hc.occurs_iff_mentions (hc.holds_head hy), hocc] at hm
      cases hm
    · rw [heq] at hlab
      exact hne (heq.trans (eq_var_of_label hlab.symm).symm)
  generalize hA : r.head a = A, hB : r.head b = B at hs
  cases hs with
  | same =>
    rw [← hc.applied_head h.holds_left, ← hc.applied_head h.holds_right, hA, hB]
    exact .refl _
  | broken _ hbad =>
    subst hA hB
    rw [← hc.applied_eq_invalid_iff h.holds_left, ← hc.applied_eq_invalid_iff h.holds_right] at hbad
    exact same_iff.mpr (hbad.imp_right .inl)
  | bound v t hne _ _ ht hocc =>
    subst hA hB
    obtain ⟨hv, hside⟩ := target?_cases ht
    rcases hside with ⟨heq, rfl⟩ | ⟨heq, rfl⟩
    · exact absurd hor (hbound h.holds_left h.holds_right hv heq hne hocc)
    · exact absurd (hor.imp Conflict.symm Eq.symm)
        (hbound h.holds_right h.holds_left hv heq hne.symm hocc)

theorem Ready.not_conflict
    (hd : Decomposes (r.head a) (r.head b)) : ¬ Conflict (r.applied a) (r.applied b) := by
  have hc := h.consistent
  have hlab : (r.applied a).label = (r.applied b).label := by
    rw [hc.label_applied_head h.holds_left, hc.label_applied_head h.holds_right, hd.label]
  intro hconf
  generalize hA : r.applied a = A, hB : r.applied b = B at hconf hlab
  cases hconf with
  | clash _ _ _ _ hne => exact hne hlab
  | left _ hne _ => exact hne (eq_var_of_label hlab.symm)
  | right _ hne _ => exact hne (eq_var_of_label hlab)

/-- Unifying types that are the same binds nothing and succeeds. -/
theorem Ready.same_quiet (run : UnifyRun r [a] [b] out r₁)
    (hsame : Same (r.applied a) (r.applied b)) : r.Grows r₁ ∧ ∃ us, out = .ok us := by
  have hid := (h.consistent.identical_iff_same h.holds_left h.holds_right).mpr hsame
  exact run.of_identical (.pair h.consistent h.holds_left h.holds_right) (.cons hid .nil)

end

end

/-- **A run that fails gets stuck.** -/
theorem UnifyRun.stuck (run : UnifyRun r as bs out r') (h : Ready r as bs)
    (hout : out = .error e) : Stuck (as.map r'.applied) (bs.map r'.applied) := by
  revert e
  refine UnifyRun.induction_on (P := fun r as bs out r' => ∀ {e}, out = .error e →
    Stuck (as.map r'.applied) (bs.map r'.applied)) ?nil ?settled ?failed ?parts ?partsFailed run h
  case nil => exact fun _ _ _ hout => by cases hout
  case settled =>
    intro r r₁ r₂ a b u as bs out h hs hready rest ih e hout
    have hkept := rest.preserves hready
    cases out with
    | ok us => cases hout
    | error e' =>
      exact .behind (h.same_after (.settled hs (.nil r₁)) hkept.consistent hkept.extends_) (ih rfl)
  case failed => exact fun h hs _ _ => .here (h.settles_conflict hs)
  case parts =>
    intro r r₁ r₂ a b as bs us out h hd inner _ _ hready rest ih e hout
    have hkept := rest.preserves hready
    cases out with
    | ok us => cases hout
    | error e' =>
      exact .behind
        (h.same_after (.parts hd inner (.nil _)) hkept.consistent hkept.extends_) (ih rfl)
  case partsFailed =>
    intro r r₁ a b as bs e h hd inner ih e' hout
    have hkept := inner.preserves h.parts
    have hHa := hkept.extends_.holds h.holds_left
    have hHb := hkept.extends_.holds h.holds_right
    -- the heads are no variables, and so the heads to the end
    have hheadA := h.consistent.head_later hkept.consistent hkept.extends_ h.holds_left hd.not_var.1
    have hheadB :=
      h.consistent.head_later hkept.consistent hkept.extends_ h.holds_right hd.not_var.2
    refine .inside ?_ ?_
    · rw [hkept.consistent.label_applied_head hHa, hkept.consistent.label_applied_head hHb, hheadA,
        hheadB, hd.label]
    · rw [hkept.consistent.parts_applied_head hHa, hkept.consistent.parts_applied_head hHb,
        hheadA, hheadB]
      exact ih rfl

/-- **Stuck operands fail again,** and nothing is bound on the way. -/
theorem UnifyRun.of_stuck (run : UnifyRun r as bs out r') (h : Ready r as bs) :
    Stuck (as.map r.applied) (bs.map r.applied) → (∃ e, out = .error e) ∧ r.Grows r' := by
  refine UnifyRun.induction_on (P := fun r as bs out r' =>
    Stuck (as.map r.applied) (bs.map r.applied) → (∃ e, out = .error e) ∧ r.Grows r')
    ?nil ?settled ?failed ?parts ?partsFailed run h
  case nil => exact fun _ _ hst => by cases hst
  -- heads that settle are not stuck, so what is stuck is further behind
  case settled =>
    intro r r₁ r₂ a b u as bs out h hs hready rest ih hst
    cases hst with
    | here hconf => exact absurd (h.settles_same hs (.inl hconf)) hconf.not_same
    | inside hlab hst =>
      have hfirst : Stuck [r.applied a] [r.applied b] := .inside hlab hst
      exact absurd (.cons (h.settles_same hs (.inr hlab)) .nil) hfirst.not_same
    | behind hsame hst =>
      have hg := (h.same_quiet (.settled hs (.nil r₁)) hsame).1
      rw [← funext hg.applied] at hst
      obtain ⟨⟨e, rfl⟩, hg₂⟩ := ih hst
      exact ⟨⟨e, rfl⟩, hg.trans hg₂⟩
  case failed =>
    intro r r₁ a b as bs e h hs _
    exact ⟨⟨e, rfl⟩, (hs.of_error h.consistent h.holds_head_left h.holds_head_right).grows⟩
  case parts =>
    intro r r₁ r₂ a b as bs us out h hd inner ihInner _ hready rest ihRest hst
    cases hst with
    | here hconf => exact absurd hconf (h.not_conflict hd)
    | inside _ hst =>
      rw [h.consistent.parts_applied_head h.holds_left,
        h.consistent.parts_applied_head h.holds_right] at hst
      obtain ⟨⟨e, he⟩, _⟩ := ihInner hst
      cases he
    | behind hsame hst =>
      have hg := (h.same_quiet (.parts hd inner (.nil _)) hsame).1
      rw [← funext hg.applied] at hst
      obtain ⟨⟨e, rfl⟩, hg₂⟩ := ihRest hst
      exact ⟨⟨e, rfl⟩, hg.trans hg₂⟩
  case partsFailed =>
    intro r r₁ a b as bs e h hd inner ihInner hst
    refine ⟨⟨e, rfl⟩, ?_⟩
    cases hst with
    | here hconf => exact absurd hconf (h.not_conflict hd)
    | inside _ hst =>
      rw [h.consistent.parts_applied_head h.holds_left,
        h.consistent.parts_applied_head h.holds_right] at hst
      exact (ihInner hst).2
    | behind hsame _ =>
      obtain ⟨us, hus⟩ := (h.same_quiet (.partsFailed hd inner) hsame).2
      cases hus

/-! ## Equal bindings -/

theorem head_eq_of_bindings {q : Registry} (h : q.bindings = r.bindings) (t : Ty) :
    q.head t = r.head t ∧ q.applied t = r.applied t := by
  have hr : ({ r with entries := #[] } : Registry).Grows r := ⟨ nil_prefix, rfl⟩
  have hq : ({ r with entries := #[] } : Registry).Grows q := ⟨ nil_prefix, h⟩
  exact ⟨(hq.head t).trans (hr.head t).symm, (hq.applied t).trans (hr.applied t).symm⟩

/-- How heads are settled depends on the bindings only, not on what else is registered. -/
theorem Ready.settles_transfer {q r₁ : Registry}
    (h : Ready r (a :: as) (b :: bs)) (hq : Ready q (a :: as) (b :: bs))
    (heq : q.bindings = r.bindings) (hs : Settles r (r.head a) (r.head b) (.ok u) r₁) :
    ∃ q₁, Settles q (q.head a) (q.head b) (.ok u) q₁ ∧ q₁.bindings = r₁.bindings := by
  have hA := h.holds_head_left
  have hB := h.holds_head_right
  have hA' := hq.holds_head_left
  have hB' := hq.holds_head_right
  rw [(head_eq_of_bindings heq a).1, (head_eq_of_bindings heq b).1] at *
  generalize r.head a = A, r.head b = B at *
  cases hs with
  | same => exact ⟨q, .same _, heq⟩
  | broken hne hbad => exact ⟨q, .broken hne hbad, heq⟩
  | bound v t hne hna hnb ht hocc =>
    refine ⟨q.assign v u, .bound v u hne hna hnb ht ?_, congrArg ((v.id, u) :: ·) heq⟩
    rw [← Bool.not_eq_true, h.consistent.occurs_iff_mentions (of_target? ht hA hB)] at hocc
    rwa [← Bool.not_eq_true, hq.consistent.occurs_iff_mentions (of_target? ht hA' hB'),
      (head_eq_of_bindings heq u).2]

/-- **A run that succeeds does so from all registries with the same bindings.** -/
theorem UnifyRun.transfer (run : UnifyRun r as bs out r') (h : Ready r as bs) :
    ∀ {us}, out = .ok us → ∀ {q}, Ready q as bs → q.bindings = r.bindings →
      ∃ q', UnifyRun q as bs (.ok us) q' ∧ q'.bindings = r'.bindings := by
  refine UnifyRun.induction_on (P := fun r as bs out r' => ∀ {us}, out = .ok us →
    ∀ {q}, Ready q as bs → q.bindings = r.bindings →
      ∃ q', UnifyRun q as bs (.ok us) q' ∧ q'.bindings = r'.bindings)
    ?nil ?settled ?failed ?parts ?partsFailed run h
  case nil =>
    rintro r _ us ⟨⟩ q _ heq
    exact ⟨q, .nil q, heq⟩
  case settled =>
    intro r r₁ r₂ a b u as bs out h hs _ _ ih us hus q hq heq
    obtain ⟨us, rfl, rfl⟩ := map_cons_eq_ok hus
    obtain ⟨q₁, hs', heq₁⟩ := h.settles_transfer hq heq hs
    obtain ⟨h₁, he, _⟩ := hq.settles hs'
    obtain ⟨q₂, rest, heq₂⟩ := ih rfl (hq.tail h₁ he) heq₁
    exact ⟨q₂, .settled hs' rest, heq₂⟩
  case failed => exact fun _ _ _ hus => by cases hus
  case parts =>
    intro r r₁ r₂ a b as bs us out h hd inner ihInner hadd hready _ ihRest vs hvs q hq heq
    obtain ⟨vs, rfl, rfl⟩ := map_cons_eq_ok hvs
    have hparts := hq.parts
    -- heads depend on the bindings alone
    have hA := (head_eq_of_bindings heq a).1
    have hB := (head_eq_of_bindings heq b).1
    rw [hA, hB] at hparts
    obtain ⟨q₁, inner', heq₁⟩ := ihInner rfl hparts heq
    have hkept := inner'.preserves hparts
    have hadd' := hkept.consistent.add_joined hd (hkept.extends_.holds (hA ▸ hq.holds_head_left))
      (hkept.length us rfl) (hkept.holds us rfl)
    have he := hkept.extends_.trans hadd'.grows.extends
    obtain ⟨q₂, rest, heq₂⟩ := ihRest rfl (hq.tail hadd'.consistent he)
      ((hadd'.grows.bindings.trans heq₁).trans hadd.grows.bindings.symm)
    exact ⟨q₂, .parts_of_heads hA hB hd inner' rest, heq₂⟩
  case partsFailed => exact fun _ _ _ _ _ hus => by cases hus

/-- So does a unification. -/
theorem unify_ok_of_bindings {q : Registry} (h : Ready r [a] [b]) (hq : Ready q [a] [b])
    (heq : q.bindings = r.bindings) (hok : ((unify a b).run.run r).1 = .ok t) :
    ((unify a b).run.run q).1 = .ok t := by
  have run := unify_runs h.consistent h.holds_left h.holds_right
  have hgives : ((unify a b).run.run r).1.map ([·]) = .ok [t] := by rw [hok]; rfl
  obtain ⟨_, run', _⟩ := run.transfer h hgives hq heq
  obtain ⟨u, hu, hus⟩ := map_singleton_eq_ok
    ((unify_runs hq.consistent hq.holds_left hq.holds_right).deterministic hq run').1
  cases hus
  exact hu

/-! ## The operands of an assignment -/

/-- Types that are not tuples of one length. -/
def Apart (d s : Ty) : Prop := ∀ n, d.label = .tuple n → s.label ≠ .tuple n

theorem Apart.symm (h : Apart d s) : Apart s d := fun n hs hd => h n hd hs

/-- Whether the operands of an assignment may be inside types with a label. -/
def opens : Ty.Label → Bool
  | .ref _ => true
  | .array _ => true
  | _ => false

/-- **The operands of an assignment** are the parts of types that open and of which the labels go
together, or else the types themselves. -/
theorem operands_eq_iff : operands d s = (x, y) ↔
      (opens d.label = true ∧ d.label.Wider s.label ∧ d.parts = [x] ∧ s.parts = [y]) ∨
      (¬ (opens d.label = true ∧ d.label.Wider s.label) ∧ d = x ∧ s = y) := by
  have hwhole : operands d s = (d, s) → ¬ (opens d.label = true ∧ d.label.Wider s.label) →
      (operands d s = (x, y) ↔
        (opens d.label = true ∧ d.label.Wider s.label ∧ d.parts = [x] ∧ s.parts = [y]) ∨
        (¬ (opens d.label = true ∧ d.label.Wider s.label) ∧ d = x ∧ s = y)) := by
    intro heq hno
    rw [heq, Prod.mk.injEq]
    exact ⟨fun h => .inr ⟨hno, h⟩, fun h => (h.resolve_left fun h' => hno ⟨h'.1, h'.2.1⟩).2⟩
  cases d with
  | ref d m l =>
    cases s with
    | ref s n k =>
      by_cases h : (!m || n) = true <;>
        simp [operands, label, opens, wider_ref_iff, parts, h]
    | _ => exact hwhole rfl fun hboth => by cases hboth.2
  | array d m =>
    cases s with
    | array s n =>
      by_cases h : (m.isNone || m == n) = true <;>
        simp [operands, label, opens, wider_array_iff, parts, h]
    | _ => exact hwhole rfl fun hboth => by cases hboth.2
  | _ => exact hwhole rfl fun hboth => Bool.false_ne_true hboth.1

theorem opens_of_wider {l k : Ty.Label} (h : l.Wider k) : opens k = opens l := by cases h <;> rfl

theorem not_var_of_opens (h : opens t.label = true) (v : TypeVar) : t ≠ .var v := by
  rintro rfl
  cases h

/-- The operands of an attempt are found before variables are replaced as well as after. -/
theorem operands_mapVars (f : TypeVar → Ty) (hop : operands d s = (x, y)) (hx : ∀ v, x ≠ .var v)
    (hy : ∀ v, y ≠ .var v) : operands (d.mapVars f) (s.mapVars f) = (x.mapVars f, y.mapVars f) ∧
      (d.mapVars f).label = d.label ∧ (s.mapVars f).label = s.label := by
  rw [operands_eq_iff] at hop ⊢
  have hnv : (∀ v, d ≠ .var v) ∧ ∀ v, s ≠ .var v := by
    rcases hop with ⟨hopen, hw, _⟩ | ⟨_, rfl, rfl⟩
    · exact ⟨not_var_of_opens hopen, not_var_of_opens ((opens_of_wider hw).trans hopen)⟩
    · exact ⟨hx, hy⟩
  rw [label_mapVars f hnv.1, label_mapVars f hnv.2, parts_mapVars f hnv.1, parts_mapVars f hnv.2]
  refine ⟨hop.imp ?_ ?_, rfl, rfl⟩
  · rintro ⟨hopen, hw, hd, hs⟩
    exact ⟨hopen, hw, by rw [hd]; rfl, by rw [hs]; rfl⟩
  · rintro ⟨hno, rfl, rfl⟩
    exact ⟨hno, rfl, rfl⟩

/-- The operands of an assignment, if they have one label, are those of the assignment the other way
round, unless that one is out of the question. -/
theorem operands_swap (hop : operands d s = (x, y)) (hlab : x.label = y.label) :
    operands s d = (y, x) ∨ (operands s d = (s, d) ∧ Conflict s d ∧ ¬ Widens s d) := by
  rw [operands_eq_iff, operands_eq_iff]
  rcases operands_eq_iff.mp hop with ⟨hopen, hw, hd, hs⟩ | ⟨hno, rfl, rfl⟩
  · have hopen' := (opens_of_wider hw).trans hopen
    by_cases hw' : s.label.Wider d.label
    · exact .inl (.inl ⟨hopen', hw', hs, hd⟩)
    · have hne : ∀ {t : Ty} {b : Basic}, opens t.label = true → t ≠ .basic b := by
        rintro t b ht rfl
        cases ht
      refine .inr ⟨.inr ⟨fun h => hw' h.2, rfl, rfl⟩, .clash ?_ ?_ (hne hopen') (hne hopen) ?_, ?_⟩
      · exact fun ⟨v, hv, _⟩ => not_var_of_opens hopen' v hv
      · exact fun ⟨v, hv, _⟩ => not_var_of_opens hopen v hv
      · exact fun heq => hw' (heq ▸ .refl _)
      · rw [widens_iff]
        rintro (h | h | h | ⟨h, _⟩)
        exacts [hne hopen' h, hne hopen h, hne hopen h, hw' h]
  · refine .inl (.inr ⟨fun h => hno ?_, rfl, rfl⟩)
    rw [hlab]
    exact ⟨h.1, .refl _⟩

/-- Operands with one label of types that widen are the same, if the types are apart. -/
theorem operands_same (hop : operands d s = (x, y)) (hlab : x.label = y.label) (hap : Apart d s)
    (hw : Widens d s) : Same x y := by
  rcases operands_eq_iff.mp hop with ⟨hopen, _, hd, hs⟩ | ⟨_, rfl, rfl⟩
  · rcases widens_iff.mp hw with rfl | rfl | rfl | ⟨_, hparts⟩
    · cases hopen
    · cases hs
    · cases hs
    · rw [hd, hs] at hparts
      generalize d.label = l at hopen hparts
      cases l with
      | ref m => exact (forall₂_cons.mp hparts).1
      | array n => exact (forall₂_cons.mp hparts).1
      | _ => cases hopen
  · rcases widens_iff.mp hw with rfl | rfl | rfl | ⟨_, hparts⟩
    · exact .left s
    · exact .right d
    · rw [eq_basic_of_label hlab]
      exact .refl _
    · refine same_iff.mpr (.inr (.inr ⟨hlab, ?_⟩))
      generalize hd : d.label = l at hparts
      cases l with
      | tuple n => exact absurd (hlab.symm.trans hd) (hap n hd)
      | _ => exact hparts

/-- An assignment that is not allowed, and not made so by unifying its operands. -/
structure Refused (d s : Ty) : Prop where
  apart : Apart d s
  no : ¬ Widens d s
  stuck : Stuck [(operands d s).1] [(operands d s).2]

theorem refused_of_stuck (hop : operands d s = (x, y)) (hlab : x.label = y.label) (hap : Apart d s)
    (hst : Stuck [x] [y]) : Refused d s ∧ Refused s d := by
  have hns : ¬ Same x y := fun hsame => hst.not_same (.cons hsame .nil)
  refine ⟨⟨hap, fun hw => hns (operands_same hop hlab hap hw), ?_⟩, hap.symm, ?_, ?_⟩
  · rwa [hop]
  all_goals
    rcases operands_swap hop hlab with hswap | ⟨hswap, hconf, hno⟩
  · exact fun hw => hns (operands_same hswap hlab.symm hap.symm hw).symm
  · exact hno
  · rw [hswap]
    exact hst.symm
  · rw [hswap]
    exact .here hconf

/-! ## Unifying for an assignment -/

/-- Whether unifying for an assignment succeeds. -/
def Succeeds (r : Registry) (dst src : Ty) : Prop :=
  ((unifyAssignable dst src).run.run r).1 = .ok ()

/-- The registry that is left by unifying for an assignment. -/
def afterAttempt (r : Registry) (dst src : Ty) : Registry := ((unifyAssignable dst src).run.run r).2

/-- An assignment that was not allowed as it stood, so that its operands were unified. -/
structure Attempt (r : Registry) (dst src : Ty) (r₁ : Registry) (x y : Ty) :
    Prop extends Settled r r₁ where
  no : ¬ Widens (r.applied dst) (r.applied src)
  operands : operands (r.applied dst) (r.applied src) = (x, y)
  left : Plain r₁ x
  right : Plain r₁ y
  succeeds : Succeeds r dst src ↔ ∃ t, ((unify x y).run.run r₁).1 = .ok t
  after : afterAttempt r dst src = ((unify x y).run.run r₁).2

theorem Attempt.ready {r₁ : Registry} (hat : Attempt r a b r₁ x y) : Ready r₁ [x] [y] :=
  .pair hat.consistent hat.left.holds hat.right.holds

theorem Plain.head_eq (h : Plain r t) : r.head t = t := by
  by_cases hvar : ∃ v, t = .var v
  · obtain ⟨v, rfl⟩ := hvar
    exact head_free (h.unbound v (mentions_var.mpr rfl))
  · exact head_of_not_var r fun v hv => hvar ⟨v, hv⟩

section

variable {q r₁ : Registry}

/-- An assignment is granted by its types alone, or it comes to an attempt to unify two operands. -/
theorem Consistent.attempt (h : r.Consistent) (ha : r.Holds a) (hb : r.Holds b)
    (hap : Apart (r.applied a) (r.applied b)) :
    (Widens (r.applied a) (r.applied b) ∧ Succeeds r a b) ∨ ∃ r₁ x y, Attempt r a b r₁ x y := by
  obtain ⟨r₁, hset, hl, hr, hlevel⟩ :=
    h.unifyAssignableLevel_run (unifyAssignableWithin r.size) ha hb
  rw [← unifyAssignable_run] at hlevel
  generalize ho : (unifyAssignable a b).run.run r = o at hlevel
  have hok : Succeeds r a b ↔ o.1 = .ok () := by rw [Succeeds, ho]
  have hpart : ∀ {t x : Ty}, Plain r₁ t → x = t ∨ x ∈ t.parts → Plain r₁ x :=
    fun ht hx => hx.elim (fun heq => heq ▸ ht) (ht.part hset.consistent)
  cases hlevel with
  | allowed hw => exact .inl ⟨hw, hok.mpr rfl⟩
  | @unified hno x y hop hx hy _ =>
    refine .inr ⟨r₁, x, y, hset, hno, hop, hpart hl hx, hpart hr hy, hok.trans ?_, ?_⟩
    · rcases (unify x y).run.run r₁ with ⟨_ | _, _⟩ <;> simp [Except.map]
    · rw [afterAttempt, ho]
      rfl
  | each _ hd hs hlen =>
    rw [hd, hs] at hap
    exact absurd (congrArg Label.tuple hlen.symm) (hap _ rfl)

/-- Whether it succeeds depends on the bindings alone. -/
theorem Succeeds.of_bindings (hok : Succeeds r a b) (h : Ready r [a] [b]) (hq : Ready q [a] [b])
    (heq : q.bindings = r.bindings) (hap : Apart (r.applied a) (r.applied b)) : Succeeds q a b := by
  have ha := (head_eq_of_bindings heq a).2
  have hb := (head_eq_of_bindings heq b).2
  rcases hq.consistent.attempt hq.holds_left hq.holds_right (by rwa [ha, hb]) with
    ⟨_, hok'⟩ | ⟨q₁, x', y', hat'⟩
  · exact hok'
  rcases h.consistent.attempt h.holds_left h.holds_right hap with ⟨hw, _⟩ | ⟨r₁, x, y, hat⟩
  · rw [← ha, ← hb] at hw
    exact absurd hw hat'.no
  have hop := hat'.operands
  rw [ha, hb, hat.operands] at hop
  cases hop
  obtain ⟨t, ht⟩ := hat.succeeds.mp hok
  have heq₁ : q₁.bindings = r₁.bindings := by rw [hat'.grows.bindings, hat.grows.bindings, heq]
  exact hat'.succeeds.mpr ⟨t, unify_ok_of_bindings hat.ready hat'.ready heq₁ ht⟩

/-- It fails without binding anything, or below the heads of the operands. -/
theorem Attempt.error_cases (hat : Attempt r a b r₁ x y) (hno : ¬ Succeeds r a b) :
    r.Grows (afterAttempt r a b) ∨ (Decomposes x y ∧
      ∃ e, UnifyRun r₁ [x] [y] (.error e) (afterAttempt r a b)) := by
  rw [hat.succeeds] at hno
  rw [hat.after]
  cases hrun : (unify x y).run.run r₁ with
  | mk out r₂ =>
    cases out with
    | ok t => exact absurd ⟨t, congrArg Prod.fst hrun⟩ hno
    | error e =>
      have run := hat.consistent.unify_error_run hat.left.holds hat.right.holds hrun
      have hcases := run.error_cases
      rw [hat.left.head_eq, hat.right.head_eq] at hcases
      exact hcases.imp (fun hs => hat.grows.trans
        (hs.of_error hat.consistent hat.left.holds hat.right.holds).grows) fun hd => ⟨hd, e, run⟩

/-- **A failure that binds something is final**: neither type can be assigned to the other one. -/
theorem Consistent.attempt_error_cases (h : r.Consistent) (ha : r.Holds a) (hb : r.Holds b)
    (hap : Apart (r.applied a) (r.applied b)) (hno : ¬ Succeeds r a b) :
    r.Grows (afterAttempt r a b) ∨
      (Refused ((afterAttempt r a b).applied a) ((afterAttempt r a b).applied b) ∧
        Refused ((afterAttempt r a b).applied b) ((afterAttempt r a b).applied a)) := by
  rcases h.attempt ha hb hap with ⟨_, hok⟩ | ⟨r₁, x, y, hat⟩
  · exact absurd hok hno
  have hev : r.Evolves (afterAttempt r a b) := h.unifyAssignable_evolves ha hb
  refine (hat.error_cases hno).imp_right fun ⟨hd, e, run⟩ => ?_
  have hst := run.stuck hat.ready rfl
  generalize afterAttempt r a b = q at *
  rw [h.applied_mono hev.consistent hev.extends_ ha, h.applied_mono hev.consistent hev.extends_ hb]
  obtain ⟨hop, hla, hlb⟩ := operands_mapVars (fun v => q.applied (.var v)) hat.operands hd.not_var.1
    hd.not_var.2
  refine refused_of_stuck hop ?_ ?_ hst
  · rw [label_mapVars _ hd.not_var.1, label_mapVars _ hd.not_var.2, hd.label]
  · rwa [Apart, hla, hlb]

/-- A refused assignment fails, and the attempt leaves no bindings. -/
theorem Refused.fails (href : Refused (r.applied a) (r.applied b)) (h : Ready r [a] [b]) :
    ¬ Succeeds r a b ∧ r.Grows (afterAttempt r a b) := by
  rcases h.consistent.attempt h.holds_left h.holds_right href.apart with ⟨hw, _⟩ | ⟨r₁, x, y, hat⟩
  · exact absurd hw href.no
  have hst := href.stuck
  rw [hat.operands, ← hat.left.applied_eq, ← hat.right.applied_eq] at hst
  obtain ⟨⟨e, he⟩, hg⟩ :=
    (unify_runs hat.consistent hat.left.holds hat.right.holds).of_stuck hat.ready hst
  refine ⟨fun hok => ?_, hat.after ▸ hat.grows.trans hg⟩
  obtain ⟨t, ht⟩ := hat.succeeds.mp hok
  rw [ht] at he
  cases he

/-- An assignment that fails, while the one the other way round would succeed, binds nothing. -/
theorem Succeeds.grows_swap (hok : Succeeds r a b) (h : Ready r [a] [b])
    (hap : Apart (r.applied a) (r.applied b)) (hno : ¬ Succeeds r b a) :
    r.Grows (afterAttempt r b a) := by
  have hc := h.consistent
  rcases hc.attempt h.holds_right h.holds_left hap.symm with ⟨_, hok'⟩ | ⟨r₂, y, x, hat'⟩
  · exact absurd hok' hno
  rcases hat'.error_cases hno with hg | ⟨hd, e, run⟩
  · exact hg
  -- otherwise the operands have one label, and are the same pair in either direction or are refused
  exfalso
  rcases operands_swap hat'.operands hd.label with hop | ⟨hop, hconf, hwiden⟩
  · rcases hc.attempt h.holds_left h.holds_right hap with ⟨hw, _⟩ | ⟨r₁, x', y', hat⟩
    · -- types that are the same do not fail
      have hsame := (operands_same hop hd.label.symm hap hw).symm
      rw [← hat'.left.applied_eq, ← hat'.right.applied_eq] at hsame
      obtain ⟨us, hus⟩ := (hat'.ready.same_quiet run hsame).2
      cases hus
    · -- unification is symmetric
      rw [hat.operands] at hop
      cases hop
      obtain ⟨t, ht⟩ := hat.succeeds.mp hok
      have heq : r₂.bindings = r₁.bindings := by rw [hat'.grows.bindings, hat.grows.bindings]
      have hok₂ := unify_ok_of_bindings hat.ready
        (.pair hat'.consistent hat'.right.holds hat'.left.holds) heq ht
      have run' := unify_runs hat'.consistent hat'.right.holds hat'.left.holds
      rw [hok₂] at run'
      obtain ⟨out, r₃, run'', htwins⟩ := run'.mirrored (SideBySide.refl hat'.consistent)
        (forall_mem_singleton.mpr hat'.right.holds) (forall_mem_singleton.mpr hat'.left.holds)
      obtain ⟨rfl, _⟩ := run.deterministic hat'.ready run''
      cases htwins
  · have href : Refused (r.applied a) (r.applied b) := by
      refine ⟨hap, hwiden, ?_⟩
      rw [hop]
      exact .here hconf
    exact (href.fails h).1 hok

end

end Registry

end UnitCheck
