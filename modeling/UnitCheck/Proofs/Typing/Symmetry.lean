import UnitCheck.Proofs.Typing.MostGeneral
import UnitCheck.Proofs.Typing.Unbounded

/-!
# Symmetry of unification

Two variables that meet are bound to one another, and the left one is bound to the right one. So the
order of the operands decides which of them is left over, and nothing else. To say so, a run of the
unifier and the run with its operands swapped are taken side by side.

* `SideBySide` — what the two registries have in common on the way: the same types have met, and a
  type has the same head in both, unless its heads are variables that can still be bound.
* `UnifyRun.mirrored` — one run has another one as its mirror image, which succeeds as it does or
  fails with the same code, and leaves registries that mirror each other.
* `UnifyRun.deterministic` — the mirror image is the run with the operands swapped.
* `SideBySide.applied_eq` — what types stand for in one registry is what they stand for in the
  other, with the variables that are left over renamed.
-/

namespace UnitCheck

open Ty Relation List

namespace Registry

variable {a b t u x u' t' : Ty} {r r' r₀ r₁ : Registry} {as bs us : List Ty} {v w : TypeVar}
  {out out' : Except UnifyFault (List Ty)} {r₂ : Registry}

/-! ## Runs are determined by their operands -/

theorem UnifyRun.deterministic (h : Ready r as bs) (run : UnifyRun r as bs out r₁)
    (run' : UnifyRun r as bs out' r₂) :
    out = out' ∧ r₁ = r₂ :=
  Prod.mk.inj (Option.some.inj ((plainUnifyAll_run run h).symm.trans (plainUnifyAll_run run' h)))

/-! ## Heads after a binding -/

theorem Consistent.head_assign_of_ne (h : r.Consistent) {y : Ty}
    (hv : r.Holds (.var v)) (hy : r.Holds y)
    (hhead : r.head y = y) (hne : y ≠ .var v) : (r.assign v t).head y = y := by
  by_cases hvar : ∃ w, y = .var w
  · obtain ⟨w, rfl⟩ := hvar
    have hid : w.id ≠ v.id := fun hid => hne (by rw [h.var_ext hy hv hid])
    refine head_free ?_
    rw [assign_binding?_of_id_ne hid]
    exact h.head_unbound hy hhead
  · exact head_of_not_var _ fun w hw => hvar ⟨w, hw⟩

theorem Consistent.head_idem (h : r.Consistent) (ht : r.Holds t) : r.head (r.head t) = r.head t :=
  h.head_head h (Extends.refl r) ht

theorem Consistent.head_eq_mono (h : r.Consistent) (h' : r'.Consistent) (he : r.Extends r')
    (ht : r.Holds t) (hu : r.Holds u) (heq : r.head t = r.head u) : r'.head t = r'.head u := by
  rw [← h.head_head h' he ht, heq, h.head_head h' he hu]

/-- A type that has the head of one of two operands. -/
def Meets (r : Registry) (a b x : Ty) : Prop := r.head x = r.head a ∨ r.head x = r.head b

/-- What is bound is one of the two heads. -/
theorem eq_or_eq_of_target? (h : target? a b = some (v, t)) : t = a ∨ t = b :=
  of_target? (P := fun t => t = a ∨ t = b) h (.inl rfl) (.inr rfl)

section

variable {y : Ty}

/-- **Two operands meet.** When one of two heads is bound to the other one, the types that have
either of them as their head come to have one head, and all other types keep theirs. -/
theorem Ready.head_assign (h : Ready r [a] [b]) (hne : r.head a ≠ r.head b)
    (ht : target? (r.head a) (r.head b) = some (v, t)) (hs : (r.assign v t).Consistent)
    (he : r.Extends (r.assign v t)) (hx : r.Holds x) : (r.Meets a b x → (r.assign v t).head x = t) ∧
      (¬ r.Meets a b x → (r.assign v t).head x = r.head x) := by
  have hc := h.consistent
  obtain ⟨_, hside⟩ := target?_cases ht
  -- the bound variable is one of the heads, and what it is bound to is the other one
  have hpair : r.Holds (.var v) ∧ r.Holds t ∧ r.head t = t ∧ t ≠ .var v ∧
      (r.Meets a b x ↔ (r.head x = .var v ∨ r.head x = t)) := by
    unfold Meets
    rcases hside with ⟨hv, rfl⟩ | ⟨hv, rfl⟩
    · rw [hv] at hne ⊢
      exact ⟨hv ▸ h.holds_head_left, h.holds_head_right, hc.head_idem h.holds_right,
        hne.symm, Iff.rfl⟩
    · rw [hv] at hne ⊢
      exact ⟨hv ▸ h.holds_head_right, h.holds_head_left, hc.head_idem h.holds_left, hne, Or.comm⟩
  obtain ⟨hHv, hHt, hhead, hnet, hmeets⟩ := hpair
  have htt := hc.head_assign_of_ne (t := t) hHv hHt hhead hnet
  rw [← hc.head_head hs he hx, hmeets]
  constructor
  · rintro (hxv | hxt)
    · rw [hxv, hs.head_bound (assign_binding?_of_id_eq rfl), htt]
    · rw [hxt, htt]
  · intro hno
    exact hc.head_assign_of_ne hHv (hc.holds_head hx) (hc.head_idem hx) fun hxv => hno (.inl hxv)

/-- Which types have one head after that. -/
theorem Ready.head_assign_eq_iff (h : Ready r [a] [b]) (hne : r.head a ≠ r.head b)
    (ht : target? (r.head a) (r.head b) = some (v, t)) (hs : (r.assign v t).Consistent)
    (he : r.Extends (r.assign v t)) (hx : r.Holds x) (hy : r.Holds y) :
    (r.assign v t).head x = (r.assign v t).head y ↔
      r.head x = r.head y ∨ (r.Meets a b x ∧ r.Meets a b y) := by
  obtain ⟨hxt, hxx⟩ := h.head_assign hne ht hs he hx
  obtain ⟨hyt, hyy⟩ := h.head_assign hne ht hs he hy
  constructor
  · intro heq
    by_cases hmx : r.Meets a b x
    · refine .inr ⟨hmx, ?_⟩
      by_contra hmy
      rw [hxt hmx, hyy hmy] at heq
      exact hmy ((eq_or_eq_of_target? ht).imp heq.symm.trans heq.symm.trans)
    · by_cases hmy : r.Meets a b y
      · rw [hxx hmx, hyt hmy] at heq
        exact absurd ((eq_or_eq_of_target? ht).imp heq.trans heq.trans) hmx
      · rw [hxx hmx, hyy hmy] at heq
        exact .inl heq
  · rintro (heq | ⟨hmx, hmy⟩)
    · exact h.consistent.head_eq_mono hs he hx hy heq
    · rw [hxt hmx, hyt hmy]

end

theorem Consistent.occurs_iff_mentions (h : r.Consistent) (ht : r.Holds t) :
    r.occurs v t = true ↔ (r.applied t).Mentions v := by
  rw [occurs, h.anyUnbound_eq _ ht, Mentions]

/-! ## Heads that play the same part -/

/-- Two heads are equal, or each is a variable that can be bound. -/
def SamePart (a b : Ty) : Prop := a = b ∨ Flexible a ∧ Flexible b

namespace SamePart

theorem symm (h : SamePart a b) : SamePart b a := h.imp Eq.symm And.symm

theorem eq_of_not_flexible (h : SamePart a b) (ha : ¬ Flexible a) : b = a :=
  h.elim Eq.symm fun hf => absurd hf.1 ha

theorem flexible (h : SamePart a b) (ha : Flexible a) : Flexible b := by
  rcases h with rfl | ⟨_, hb⟩
  · exact ha
  · exact hb

end SamePart

theorem Decomposes.symm (h : Decomposes a b) : Decomposes b a :=
  ⟨h.ne.symm, h.right_ne, h.left_ne,
    target?_eq_none_iff.mpr (target?_eq_none_iff.mp h.target).symm, h.label.symm⟩

/-! ## Registries side by side -/

/-- Where a unifier that began with `r₀` has got to without failing: it has made no variables. -/
structure Confined (r₀ r : Registry) : Prop extends Within r₀ r where
  vars : ∀ {v : TypeVar}, r.Holds (.var v) → r₀.Holds (.var v)

/-- Two unifiers that began with `r₀` have got to registries in which the same types of `r₀` have
met, and where the heads of a type play the same part. -/
structure SideBySide (r₀ r r' : Registry) : Prop where
  base : r₀.Consistent
  left : Confined r₀ r
  right : Confined r₀ r'
  heads : ∀ {t : Ty}, r₀.Holds t → SamePart (r.head t) (r'.head t)
  same : ∀ {t u : Ty}, r₀.Holds t → r₀.Holds u → (r.head t = r.head u ↔ r'.head t = r'.head u)

theorem Confined.holds_head (h : Confined r₀ r) (ht : r₀.Holds t) : r₀.Holds (r.head t) :=
  h.closed.reach ht (h.consistent.reach_head (h.extends_.holds ht))

/-- A unifier that registers a type has made no variable. -/
theorem Confined.add (h : Confined r₀ r) (hc : t.Compound) (hs : r.Settled (r.add t)) :
    Confined r₀ (r.add t) :=
  ⟨⟨hs.consistent, h.extends_.trans hs.grows.extends, h.closed.grows hs.grows⟩,
    fun hv => h.vars (holds_var_of_add hc hv)⟩

theorem Confined.settles (h : Confined r₀ r) (ha : r₀.Holds a) (hb : r₀.Holds b)
    (hs : Settles r (r.head a) (r.head b) (.ok u) r₁) : Confined r₀ r₁ := by
  refine ⟨h.toWithin.after (.settled hs (.nil r₁)) (forall_mem_singleton.mpr ha)
    (forall_mem_singleton.mpr hb), ?_⟩
  have htypes : r₁.types = r.types := by
    generalize r.head a = A, r.head b = B at hs
    cases hs <;> rfl
  intro v hv
  rw [Holds, htypes] at hv
  exact h.vars hv

namespace SideBySide

theorem refl (h : r.Consistent) : SideBySide r r r :=
  ⟨h, ⟨Within.start h, id⟩, ⟨Within.start h, id⟩, fun _ => .inl rfl, fun _ _ => Iff.rfl⟩

section

variable (h : SideBySide r₀ r r')
include h

theorem symm : SideBySide r₀ r' r :=
  ⟨h.base, h.right, h.left, fun ht => (h.heads ht).symm, fun ht hu => (h.same ht hu).symm⟩

theorem holds_left (ht : r₀.Holds t) : r.Holds t := h.left.extends_.holds ht

theorem holds_right (ht : r₀.Holds t) : r'.Holds t := h.right.extends_.holds ht

theorem ready (ha : ∀ a ∈ as, r₀.Holds a) (hb : ∀ b ∈ bs, r₀.Holds b) : Ready r as bs :=
  ⟨h.left.consistent, fun a hm => h.holds_left (ha a hm), fun b hm => h.holds_left (hb b hm)⟩

theorem head_cross (ht : r₀.Holds t) : r.head (r'.head t) = r.head t :=
  (h.same (h.right.holds_head ht) ht).mpr (h.right.consistent.head_idem (h.holds_right ht))

theorem add (hl : Confined r₀ (r.add t)) (hr : Confined r₀ (r'.add t')) :
    SideBySide r₀ (r.add t) (r'.add t') := by
  refine ⟨h.base, hl, hr, fun ht => ?_, fun ht hu => ?_⟩
  · rw [(grows_add r _).head, (grows_add r' _).head]
    exact h.heads ht
  · simp only [(grows_add r _).head, (grows_add r' _).head]
    exact h.same ht hu

/-! ### What types stand for -/

/-- **One registry in terms of the other.** What a type stands for in one registry is what it stands
for in the other one, with what the variables in that stand for. -/
theorem applied_eq (ht : r₀.Holds t) : r'.applied t = (r.applied t).mapVars fun v =>
  r'.applied (.var v) := by
  refine h.left.consistent.applied_eq_of_bound h.left.closed
    (fun {v b} hv hb => ?_) (h.holds_left ht) ht
  have hb₀ : r₀.Holds b := h.left.closed _ _ hv (.bound hb)
  -- the variable and its binding have met on the other side too
  have hmet : r'.head (.var v) = r'.head b := (h.same hv hb₀).mp (h.left.consistent.head_bound hb)
  rw [← h.right.consistent.applied_head (h.holds_right hv), hmet,
    h.right.consistent.applied_head (h.holds_right hb₀)]

theorem flexible_head (hx : r₀.Holds x) (hv : r.head x = .var v)
    (hw : r'.head x = .var w) : r'.applied (.var v) = .var w := by
  have hv₀ : r₀.Holds (.var v) := hv ▸ h.left.holds_head hx
  have hhead : r'.head (.var v) = .var w := by
    have hcross := h.symm.head_cross hx
    rwa [hv, hw] at hcross
  rw [← h.right.consistent.applied_head (h.holds_right hv₀), hhead]
  exact applied_free (h.right.consistent.head_unbound (h.holds_right hx) hw)

theorem occurs_of_occurs (hx : r₀.Holds x) (ht : r₀.Holds t)
    (hv : r.head x = .var v) (hw : r'.head x = .var w) (hocc : r.occurs v t = true) :
    r'.occurs w t = true := by
  rw [h.left.consistent.occurs_iff_mentions (h.holds_left ht)] at hocc
  rw [h.right.consistent.occurs_iff_mentions (h.holds_right ht), h.applied_eq ht, mentions_mapVars]
  refine ⟨v, hocc, ?_⟩
  rw [h.flexible_head hx hv hw, mentions_var]

theorem occurs_eq (hx : r₀.Holds x) (ht : r₀.Holds t) (hv : r.head x = .var v)
    (hw : r'.head x = .var w) : r'.occurs w t = r.occurs v t :=
  Bool.eq_iff_iff.mpr ⟨h.symm.occurs_of_occurs hx ht hw hv, h.occurs_of_occurs hx ht hv hw⟩

end

end SideBySide

theorem Consistent.occurs_head (h : r.Consistent) (hx : r.Holds x) (hv : r.head x = .var v)
    (hne : (.var v : Ty) ≠ .var w) : r.occurs w (.var v) = false := by
  rw [occurs, anyUnbound_free (h.head_unbound hx hv), beq_eq_false_iff_ne]
  exact fun heq => hne (by rw [heq])

/-! ## One pair of operands on both sides -/

/-- What two results have in common: whatever is bound later on, as long as the registries mirror
each other, they stand for the same type up to lifetimes, with the variables of the other side. -/
def Alike (r₀ r r' : Registry) (u u' : Ty) : Prop :=
  ∀ ⦃s s' : Registry⦄, r.Extends s → r'.Extends s' → SideBySide r₀ s s' →
    (s'.applied u').erased = ((s.applied u).mapVars fun v => s'.applied (.var v)).erased

theorem Alike.mono {s s' : Registry} (h : Alike r₀ r r' u u') (he : r.Extends s)
    (he' : r'.Extends s') :
    Alike r₀ s s' u u' :=
  fun _ _ hs hs' => h (he.trans hs) (he'.trans hs')

namespace SideBySide

section

variable (h : SideBySide r₀ r r')
include h

/-- Types that have met are alike. -/
theorem alike_of_met (hu : r₀.Holds u) (hu' : r₀.Holds u') (hmet : r.head u = r.head u') :
    Alike r₀ r r' u u' := by
  intro s s' he _ hs
  have hlater := h.left.consistent.head_eq_mono hs.left.consistent he (h.holds_left hu)
    (h.holds_left hu') hmet
  have happ : s.applied u = s.applied u' := by
    rw [← hs.left.consistent.applied_head (hs.holds_left hu), hlater,
      hs.left.consistent.applied_head (hs.holds_left hu')]
  rw [hs.applied_eq hu', happ]

/-- If one unifier binds a variable, the other one, with the operands the other way round, binds one
as well, and it is held back by an occurrence just as much. -/
theorem target?_swap (ha : r₀.Holds a) (hb : r₀.Holds b) (hne : r.head a ≠ r.head b)
    (ht : target? (r.head a) (r.head b) = some (v, t)) :
    ∃ v' t', target? (r'.head b) (r'.head a) = some (v', t') ∧ SamePart t t' ∧
      r'.occurs v' t' = r.occurs v t := by
  have hne' : r'.head a ≠ r'.head b := fun heq => hne ((h.same ha hb).mpr heq)
  by_cases hflexA : Flexible (r.head a)
  · obtain ⟨x, hx, hrx⟩ := hflexA
    obtain ⟨x', hx', hrx'⟩ := (h.heads ha).flexible ⟨x, hx, hrx⟩
    rw [hx, target?_of_left hrx] at ht
    obtain ⟨rfl, rfl⟩ := Prod.mk.inj (Option.some.inj ht)
    by_cases hflexB : Flexible (r.head b)
    · -- each order binds the variable that comes first in it
      obtain ⟨y, hy, hry⟩ := hflexB
      obtain ⟨y', hy', hry'⟩ := (h.heads hb).flexible ⟨y, hy, hry⟩
      rw [hx, hy] at hne
      rw [hx', hy'] at hne'
      rw [hx', hy', hy, target?_of_left hry']
      refine ⟨y', .var x', rfl, .inr ⟨⟨y, rfl, hry⟩, x', rfl, hrx'⟩, ?_⟩
      rw [h.right.consistent.occurs_head (h.holds_right ha) hx' hne',
        h.left.consistent.occurs_head (h.holds_left hb) hy hne.symm]
    · have heqB := (h.heads hb).eq_of_not_flexible hflexB
      rw [heqB, hx', target?_of_right hrx' hflexB]
      exact ⟨x', r.head b, rfl, .inl rfl, h.occurs_eq ha (h.left.holds_head hb) hx hx'⟩
  · -- only the right head can be bound
    have heqA := (h.heads ha).eq_of_not_flexible hflexA
    obtain ⟨hv, hside⟩ := target?_cases ht
    rcases hside with ⟨hvar, _⟩ | ⟨hvar, rfl⟩
    · exact absurd ⟨v, hvar, hv⟩ hflexA
    · obtain ⟨y', hy', hry'⟩ := (h.heads hb).flexible ⟨v, hvar, hv⟩
      rw [heqA, hy', target?_of_left hry']
      exact ⟨y', r.head a, rfl, .inl rfl, h.occurs_eq hb (h.left.holds_head ha) hvar hy'⟩

theorem meets_iff (ha : r₀.Holds a) (hb : r₀.Holds b) (hx : r₀.Holds x) : r.Meets a b x ↔
      r'.Meets b a x := by
  rw [Meets, Meets, h.same hx ha, h.same hx hb, Or.comm]

/-- After the two bindings the registries still stand side by side. -/
theorem assign {v' : TypeVar} (ha : r₀.Holds a) (hb : r₀.Holds b) (hne : r.head a ≠ r.head b)
    (ht : target? (r.head a) (r.head b) = some (v, t))
    (ht' : target? (r'.head b) (r'.head a) = some (v', t'))
    (hmatch : SamePart t t') (hl : Confined r₀ (r.assign v t)) (hr : Confined r₀ (r'.assign v' t'))
    (he : r.Extends (r.assign v t)) (he' : r'.Extends (r'.assign v' t')) :
    SideBySide r₀ (r.assign v t) (r'.assign v' t') := by
  have hne' : r'.head b ≠ r'.head a := fun heq => hne ((h.same ha hb).mpr heq.symm)
  have hready : Ready r [a] [b] := .pair h.left.consistent (h.holds_left ha) (h.holds_left hb)
  have hready' : Ready r' [b] [a] := .pair h.right.consistent (h.holds_right hb) (h.holds_right ha)
  refine ⟨h.base, hl, hr, fun {x} hx => ?_, fun {x y} hx hy => ?_⟩
  · obtain ⟨hmeet, hkeep⟩ := hready.head_assign hne ht hl.consistent he (h.holds_left hx)
    obtain ⟨hmeet', hkeep'⟩ := hready'.head_assign hne' ht' hr.consistent he' (h.holds_right hx)
    by_cases hm : r.Meets a b x
    · rw [hmeet hm, hmeet' ((h.meets_iff ha hb hx).mp hm)]
      exact hmatch
    · rw [hkeep hm, hkeep' fun hm' => hm ((h.meets_iff ha hb hx).mpr hm')]
      exact h.heads hx
  · rw [hready.head_assign_eq_iff hne ht hl.consistent he (h.holds_left hx) (h.holds_left hy),
      hready'.head_assign_eq_iff hne' ht' hr.consistent he' (h.holds_right hx) (h.holds_right hy),
      h.same hx hy, h.meets_iff ha hb hx, h.meets_iff ha hb hy]

omit h in
theorem not_flexible_invalid : ¬ Flexible .invalid := by
  rintro ⟨v, hv, _⟩
  cases hv

theorem head_eq_invalid_iff (ht : r₀.Holds t) : r'.head t = .invalid ↔ r.head t = .invalid := by
  constructor
  · intro heq
    exact ((heq ▸ h.heads ht).symm.eq_of_not_flexible not_flexible_invalid)
  · intro heq
    exact ((heq ▸ h.heads ht).eq_of_not_flexible not_flexible_invalid)

/-- Heads of which one is bound: the unifier on the other side binds too and comes to a type that
plays the same part. -/
theorem settles_bound (ha : r₀.Holds a) (hb : r₀.Holds b)
    (hne : r.head a ≠ r.head b) (hna : r.head a ≠ .invalid) (hnb : r.head b ≠ .invalid)
    (ht : target? (r.head a) (r.head b) = some (v, t)) (hocc : r.occurs v t = false) :
    ∃ u' r₁', Settles r' (r'.head b) (r'.head a) (.ok u') r₁' ∧ SideBySide r₀ (r.assign v t) r₁' ∧
      Alike r₀ (r.assign v t) r₁' t u' := by
  have hready : Ready r [a] [b] := .pair h.left.consistent (h.holds_left ha) (h.holds_left hb)
  have hready' : Ready r' [b] [a] := .pair h.right.consistent (h.holds_right hb) (h.holds_right ha)
  obtain ⟨v', t', ht', hmatch, hocc'⟩ := h.target?_swap ha hb hne ht
  have hs := Settles.bound v t hne hna hnb ht hocc
  have hs' : Settles r' (r'.head b) (r'.head a) (.ok t') (r'.assign v' t') :=
    .bound v' t' (fun heq => hne ((h.same ha hb).mpr heq.symm))
      (mt (h.head_eq_invalid_iff hb).mp hnb) (mt (h.head_eq_invalid_iff ha).mp hna) ht'
      (hocc'.trans hocc)
  have hl := h.left.settles ha hb hs
  have hr := h.right.settles hb ha hs'
  obtain ⟨_, he, _⟩ := hready.settles hs
  obtain ⟨_, he', _⟩ := hready'.settles hs'
  have hm := h.assign ha hb hne ht ht' hmatch hl hr he he'
  refine ⟨t', r'.assign v' t', hs', hm, ?_⟩
  -- both results are heads of the operands, which have met
  have ht₀ : r₀.Holds t := of_target? ht (h.left.holds_head ha) (h.left.holds_head hb)
  have ht₀' : r₀.Holds t' := of_target? ht' (h.right.holds_head hb) (h.right.holds_head ha)
  have hmeets : r.Meets a b t := by
    rcases eq_or_eq_of_target? ht with rfl | rfl
    · exact .inl (h.left.consistent.head_idem (h.holds_left ha))
    · exact .inr (h.left.consistent.head_idem (h.holds_left hb))
  have hmeets' : r.Meets a b t' := by
    rcases eq_or_eq_of_target? ht' with rfl | rfl
    · exact .inr (h.head_cross hb)
    · exact .inl (h.head_cross ha)
  refine hm.alike_of_met ht₀ ht₀' ?_
  exact (hready.head_assign_eq_iff hne ht hl.consistent he (h.holds_left ht₀)
    (h.holds_left ht₀')).mpr (.inr ⟨hmeets, hmeets'⟩)

/-- **One pair succeeds on both sides.** -/
theorem settles_ok (ha : r₀.Holds a) (hb : r₀.Holds b)
    (hs : Settles r (r.head a) (r.head b) (.ok u) r₁) :
    ∃ u' r₁', Settles r' (r'.head b) (r'.head a) (.ok u') r₁' ∧ SideBySide r₀ r₁ r₁' ∧
    Alike r₀ r₁ r₁' u u' := by
  generalize hA : r.head a = A, hB : r.head b = B at hs
  cases hs with
  | same =>
    have hmet : r'.head a = r'.head b := (h.same ha hb).mp (hA.trans hB.symm)
    refine ⟨r'.head b, r', ?_, h, ?_⟩
    · rw [hmet]
      exact .same _
    · refine h.alike_of_met (hA ▸ h.left.holds_head ha) (h.right.holds_head hb) ?_
      rw [h.head_cross hb, ← hB, h.left.consistent.head_idem (h.holds_left hb)]
  | broken hne hbad =>
    subst hA hB
    refine ⟨.invalid, r', .broken (fun heq => hne ((h.same ha hb).mpr heq.symm)) ?_, h, ?_⟩
    · rw [h.head_eq_invalid_iff ha, h.head_eq_invalid_iff hb]
      exact hbad.symm
    · have hinv := h.base.basic .invalid
      exact h.alike_of_met hinv hinv rfl
  | bound v t hne hna hnb ht hocc =>
    subst hA hB
    exact h.settles_bound ha hb hne hna hnb ht hocc

/-- **One pair fails on both sides**, with one code. -/
theorem settles_error {e : UnifyFault} (ha : r₀.Holds a) (hb : r₀.Holds b)
    (hs : Settles r (r.head a) (r.head b) (.error e) r₁) :
    ∃ e' r₁', Settles r' (r'.head b) (r'.head a) (.error e') r₁' ∧ e.code = e'.code := by
  generalize hA : r.head a = A, hB : r.head b = B at hs
  cases hs with
  | recursive v t hne hna hnb ht hocc _ =>
    subst hA hB
    obtain ⟨v', t', ht', _, hocc'⟩ := h.target?_swap ha hb hne ht
    exact ⟨.recursive v' ((resolve t').run r').1, ((resolve t').run r').2,
      .recursive v' t' (fun heq => hne ((h.same ha hb).mpr heq.symm))
        (mt (h.head_eq_invalid_iff hb).mp hnb) (mt (h.head_eq_invalid_iff ha).mp hna) ht'
        (hocc'.trans hocc) rfl, rfl⟩
  | clash hne hna hnb ht hlab hrun =>
    subst hA hB
    -- neither head can be bound, so both are the same on the other side
    obtain ⟨hfa, hfb⟩ := target?_eq_none_iff.mp ht
    have heqA := (h.heads ha).eq_of_not_flexible hfa
    have heqB := (h.heads hb).eq_of_not_flexible hfb
    have hready' : Ready r' [b] [a] :=
      .pair h.right.consistent (h.holds_right hb) (h.holds_right ha)
    obtain ⟨herr, _⟩ := h.left.consistent.failMismatch_run (α := Ty)
      (h.left.consistent.holds_head (h.holds_left ha))
      (h.left.consistent.holds_head (h.holds_left hb))
    obtain ⟨herr', _⟩ := h.right.consistent.failMismatch_run (α := Ty) hready'.holds_head_left
      hready'.holds_head_right
    have hs' := settles_clash h.right.consistent hready'.holds_head_left hready'.holds_head_right
      (by rw [heqA, heqB]; exact hne.symm) (by rw [heqB]; exact hnb) (by rw [heqA]; exact hna)
      (by rw [heqA, heqB]; exact target?_eq_none_iff.mpr ⟨hfb, hfa⟩)
      (by rw [heqA, heqB]; exact hlab.symm)
    rw [hrun] at herr
    refine ⟨_, _, hs', ?_⟩
    rw [Except.error.inj herr]
    rfl

end

end SideBySide

/-! ## Runs on both sides -/

/-- Two runs have come to the same: each has succeeded and the results are alike, or each has failed
and the codes are equal. -/
inductive Twins (r₀ : Registry) : Except UnifyFault (List Ty) → Registry →
    Except UnifyFault (List Ty) → Registry → Prop where
  | ok {us us' : List Ty} {r r' : Registry} (mirrors : SideBySide r₀ r r')
      (alike : List.Forall₂ (Alike r₀ r r') us us') : Twins r₀ (.ok us) r (.ok us') r'
  | error {e e' : UnifyFault} {r r' : Registry} (code : e.code = e'.code) :
      Twins r₀ (.error e) r (.error e') r'

theorem Twins.cons {r₁' : Registry} (h : Twins r₀ out r₁ out' r₁') (hu : Alike r₀ r r' u u')
    (he : r.Extends r₁)
    (he' : r'.Extends r₁') : Twins r₀ (out.map (u :: ·)) r₁ (out'.map (u' :: ·)) r₁' := by
  cases h with
  | ok mirrors alike => exact .ok mirrors (.cons (hu.mono he he') alike)
  | error code => exact .error code

/-- Types of one label with parts that are alike are alike. -/
theorem alike_joined {us' : List Ty} (hd : Decomposes a b) (hlen : us.length = a.parts.length)
    (hlen' : us'.length = b.parts.length) (halike : List.Forall₂ (Alike r₀ r r') us us') :
    Alike r₀ r r' (joined a b us) (joined b a us') := by
  intro s s' he he' hs
  have hlab : (joined a b us).label = a.label := label_rebuild hlen
  have hlab' : (joined b a us').label = b.label := label_rebuild hlen'
  have hnv : ∀ v, joined a b us ≠ .var v := by
    intro v hv
    rw [hv] at hlab
    exact hd.not_var.1 v (eq_var_of_label hlab.symm)
  have hnv' : ∀ v, joined b a us' ≠ .var v := by
    intro v hv
    rw [hv] at hlab'
    exact hd.not_var.2 v (eq_var_of_label hlab'.symm)
  have hnva := s.applied_ne_var hnv
  have hparts : (joined a b us).parts = us := parts_rebuild hlen
  have hparts' : (joined b a us').parts = us' := parts_rebuild hlen'
  rw [erased_eq_iff, label_mapVars _ hnva, parts_mapVars _ hnva, label_applied s hnv,
    label_applied s' hnv', parts_applied s hnv, parts_applied s' hnv', hparts, hparts', hlab, hlab']
  refine ⟨hd.label.symm, ?_⟩
  rw [List.map_map, List.map_map, List.map_map, ← forall₂_eq_eq_eq,
    forall₂_map_left_iff, forall₂_map_right_iff]
  exact (halike.imp fun _ _ hu => hu he he' hs).flip

theorem UnifyRun.parts_of_heads {A B : Ty} (hA : r.head a = A) (hB : r.head b = B)
    (hd : Decomposes A B) (inner : UnifyRun r A.parts B.parts (.ok us) r₁)
    (rest : UnifyRun (r₁.add (joined A B us)) as bs out r₂) :
    UnifyRun r (a :: as) (b :: bs) (out.map (joined A B us :: ·)) r₂ := by
  subst hA hB
  exact .parts hd inner rest

/-- **A run has a mirror image**: the run with its operands swapped, from a registry that mirrors
the one that it started from. -/
theorem UnifyRun.mirrored (run : UnifyRun r as bs out r₁) (hm : SideBySide r₀ r r')
    (ha : ∀ a ∈ as, r₀.Holds a) (hb : ∀ b ∈ bs, r₀.Holds b) :
    ∃ out' r₁', UnifyRun r' bs as out' r₁' ∧ Twins r₀ out r₁ out' r₁' := by
  induction run generalizing r' with
  | nil r => exact ⟨.ok [], r', .nil r', .ok hm .nil⟩
  | settled hs rest ih =>
    rw [forall_mem_cons] at ha hb
    obtain ⟨u', s', hs', hm₁, halike⟩ := hm.settles_ok ha.1 hb.1 hs
    obtain ⟨out', r₂', rest', htwins⟩ := ih hm₁ ha.2 hb.2
    have he := (rest.preserves (hm₁.ready ha.2 hb.2)).extends_
    have he' := (rest'.preserves (hm₁.symm.ready hb.2 ha.2)).extends_
    exact ⟨_, r₂', .settled hs' rest', htwins.cons halike he he'⟩
  | failed hs =>
    obtain ⟨e', s', hs', hcode⟩ := hm.settles_error (ha _ mem_cons_self) (hb _ mem_cons_self) hs
    exact ⟨.error e', s', .failed hs', .error hcode⟩
  | @parts r r₁ r₂ a b as bs us out hd inner rest ihInner ihRest =>
    rw [forall_mem_cons] at ha hb
    -- neither head can be bound, so both are the same on the other side
    obtain ⟨hfa, hfb⟩ := target?_eq_none_iff.mp hd.target
    have hA := (hm.heads ha.1).eq_of_not_flexible hfa
    have hB := (hm.heads hb.1).eq_of_not_flexible hfb
    have hHa := hm.left.holds_head ha.1
    have hHb := hm.left.holds_head hb.1
    have hPa : ∀ x ∈ (r.head a).parts, r₀.Holds x := fun x hx => hm.base.holds_part hHa hx
    have hPb : ∀ x ∈ (r.head b).parts, r₀.Holds x := fun x hx => hm.base.holds_part hHb hx
    obtain ⟨out', r₁', inner', htwins⟩ := ihInner hm hPa hPb
    cases htwins with
    | @ok _ us' _ _ hm₁ halike =>
      have hin := inner.preserves (hm.ready hPa hPb)
      have hin' := inner'.preserves (hm.symm.ready hPb hPa)
      have hlen := hin.length us rfl
      have hlen' := hin'.length us' rfl
      have hcomp := hd.joined_compound hm.base.toInterned hHa hlen
      have hcomp' := hd.symm.joined_compound hm.base.toInterned hHb hlen'
      have hadd := hin.consistent.add_joined hd (hm₁.holds_left hHa) hlen (hin.holds us rfl)
      have hadd' :=
        hin'.consistent.add_joined hd.symm (hm₁.holds_right hHb) hlen' (hin'.holds us' rfl)
      have hm₂ := hm₁.add (hm₁.left.add hcomp hadd) (hm₁.right.add hcomp' hadd')
      obtain ⟨out'', r₂', rest', htwins⟩ := ihRest hm₂ ha.2 hb.2
      have he := (rest.preserves (hm₂.ready ha.2 hb.2)).extends_
      have he' := (rest'.preserves (hm₂.symm.ready hb.2 ha.2)).extends_
      exact ⟨_, r₂', .parts_of_heads hB hA hd.symm inner' rest',
        htwins.cons (alike_joined hd hlen hlen' halike) (hadd.grows.extends.trans he)
          (hadd'.grows.extends.trans he')⟩
  | @partsFailed r r₁ a b as bs e hd inner ihInner =>
    rw [forall_mem_cons] at ha hb
    obtain ⟨hfa, hfb⟩ := target?_eq_none_iff.mp hd.target
    have hA := (hm.heads ha.1).eq_of_not_flexible hfa
    have hB := (hm.heads hb.1).eq_of_not_flexible hfb
    obtain ⟨out', r₁', inner', htwins⟩ := ihInner hm
      (fun x hx => hm.base.holds_part (hm.left.holds_head ha.1) hx)
      (fun x hx => hm.base.holds_part (hm.left.holds_head hb.1) hx)
    cases htwins with
    | @error _ e' _ _ hcode =>
      refine ⟨.error e', r₁', .partsFailed ?_ ?_, .error hcode⟩
      · rw [hA, hB]
        exact hd.symm
      · rw [hA, hB]
        exact inner'

/-! ## Renaming what is left over -/

/-- The variable that a variable stands for. -/
def standIn (r : Registry) (v : TypeVar) : TypeVar :=
  match r.head (.var v) with
  | .var w => w
  | _ => v

/-- `ρ` takes the variables of `r₀` that are left over in `r` to those that are left over in `r'`,
and `σ` takes them back. Rigid variables stay where they are. -/
structure Renames (r₀ : Registry) (ρ σ : TypeVar → TypeVar) (r r' : Registry) : Prop where
  unbound : ∀ {v : TypeVar}, r₀.Holds (.var v) → r.binding? v = none →
    r₀.Holds (.var (ρ v)) ∧ r'.binding? (ρ v) = none
  back : ∀ {v : TypeVar}, r₀.Holds (.var v) → r.binding? v = none → σ (ρ v) = v
  rigid : ∀ {v : TypeVar}, r₀.Holds (.var v) → v.rigid = true → ρ v = v
  flexible : ∀ {v : TypeVar}, r₀.Holds (.var v) → r.binding? v = none → v.rigid = false →
    (ρ v).rigid = false

namespace SideBySide

theorem standIn_eq (h : r.head (.var v) = .var w) : r.standIn v = w := by
  rw [standIn, h]

/-- What a variable that is left over in one registry stands for in the other one. -/
theorem head_var (h : SideBySide r₀ r r') (hv : r₀.Holds (.var v)) (hb : r.binding? v = none) :
    r'.head (.var v) = .var (r'.standIn v) ∧ (r'.standIn v).rigid = v.rigid ∧
      (v.rigid = true → r'.standIn v = v) := by
  have hmatch := h.heads hv
  rw [head_free hb] at hmatch
  rcases hmatch with heq | ⟨⟨w, hw, hflex⟩, x, hx, hflex'⟩
  · rw [standIn_eq heq.symm]
    exact ⟨heq.symm, rfl, fun _ => rfl⟩
  · obtain rfl := Ty.var.inj hw
    rw [standIn_eq hx]
    refine ⟨hx, hflex'.trans hflex.symm, fun hr => ?_⟩
    rw [hflex] at hr
    cases hr

/-- The variables left over on either side stand for each other. -/
theorem renames (h : SideBySide r₀ r r') : Renames r₀ r'.standIn r.standIn r r' := by
  refine ⟨fun {v} hv hb => ?_, fun {v} hv hb => ?_, fun {v} hv hr => ?_, fun {v} hv hb hr => ?_⟩
  · obtain ⟨hhead, _⟩ := h.head_var hv hb
    exact ⟨hhead ▸ h.right.holds_head hv, h.right.consistent.head_unbound (h.holds_right hv) hhead⟩
  · obtain ⟨hhead, _⟩ := h.head_var hv hb
    have hcross := h.head_cross hv
    rw [hhead, head_free hb] at hcross
    exact standIn_eq hcross
  · have hb := h.left.consistent.binding?_of_rigid (h.holds_left hv) hr
    exact (h.head_var hv hb).2.2 hr
  · rw [(h.head_var hv hb).2.1, hr]

theorem mapVars_applied (h : SideBySide r₀ r r') (ht : r.Holds t) :
    (r.applied t).mapVars (fun v => r'.applied (.var v)) =
      (r.applied t).mapVars fun v => .var (r'.standIn v) := by
  refine mapVars_congr fun v hm => ?_
  obtain ⟨hv, hb⟩ := h.left.consistent.mentions_applied ht v hm
  exact h.flexible_head (h.left.vars hv) (head_free hb) (h.head_var (h.left.vars hv) hb).1

end SideBySide

/-- **Unification is symmetric.** Whichever operand comes first, both orders succeed, or both fail
with one code. When they succeed, each type of the registry is resolved to the same type after
either, up to a renaming of the variables that are left over, and so are the two results, up to
lifetimes. -/
theorem unify_symmetric {r r₁ r₂ : Registry} (h : r.Reachable) {a b : Ty} (ha : r.Holds a)
    (hb : r.Holds b) {out out' : Except UnifyFault Ty}
    (hab : (unify a b).run.run r = (out, r₁)) (hba : (unify b a).run.run r = (out', r₂)) :
    (∃ e e', out = .error e ∧ out' = .error e' ∧ e.code = e'.code) ∨
    ∃ t t' ρ σ, out = .ok t ∧ out' = .ok t' ∧ Renames r ρ σ r₁ r₂ ∧ Renames r σ ρ r₂ r₁ ∧
      (∀ u, r.Holds u →
        ((resolve u).run r₂).1 = ((resolve u).run r₁).1.mapVars fun v => .var (ρ v)) ∧
      ((resolve t').run r₂).1.erased =
        (((resolve t).run r₁).1.mapVars fun v => .var (ρ v)).erased := by
  have hc := h.consistent
  have run := unify_runs hc ha hb
  have run' := unify_runs hc hb ha
  rw [hab] at run
  rw [hba] at run'
  -- the run the other way round is the mirror image, since runs are deterministic
  obtain ⟨outs, r₂', mirror, htwins⟩ := run.mirrored (SideBySide.refl hc)
    (List.forall_mem_singleton.mpr ha) (List.forall_mem_singleton.mpr hb)
  obtain ⟨houts, rfl⟩ := mirror.deterministic (.pair hc hb ha) run'
  have hkept := run.preserves (.pair hc ha hb)
  have hkept' := run'.preserves (.pair hc hb ha)
  cases out with
  | error e =>
    cases out' with
    | error e' =>
      subst houts
      cases htwins with
      | error code => exact .inl ⟨e, e', rfl, rfl, code⟩
    | ok t' =>
      subst houts
      cases htwins
  | ok t =>
    cases out' with
    | error e' =>
      subst houts
      cases htwins
    | ok t' =>
      subst houts
      cases htwins with
      | ok hm halike =>
        have ht := hkept.holds [t] rfl t List.mem_cons_self
        have ht' := hkept'.holds [t'] rfl t' List.mem_cons_self
        refine .inr ⟨t, t', _, _, rfl, rfl, hm.renames, hm.symm.renames, fun u hu => ?_, ?_⟩
        · rw [(hm.right.consistent.resolve_run (hm.holds_right hu)).type_eq,
            (hm.left.consistent.resolve_run (hm.holds_left hu)).type_eq,
            ← hm.mapVars_applied (hm.holds_left hu), hm.applied_eq hu]
        · rw [(hm.right.consistent.resolve_run ht').type_eq,
            (hm.left.consistent.resolve_run ht).type_eq, ← hm.mapVars_applied ht]
          exact (List.forall₂_cons.mp halike).1 (Extends.refl _) (Extends.refl _) hm

namespace Crossed

/-! A registry with the tuples `(a, b)` and `(b, a)` of two variables. -/

def first : Ty := .tuple [.var Sample.a, .var Sample.b]

def second : Ty := .tuple [.var Sample.b, .var Sample.a]

def registry : Registry :=
  performAll [.newVar "a" false, .newVar "b" false, .register first, .register second] (empty 0)

theorem reachable : registry.Reachable := ⟨0, later_performAll (by decide +kernel)⟩

theorem holds_first : registry.Holds first := by decide +kernel

theorem holds_second : registry.Holds second := by decide +kernel

end Crossed

/-- The tuples `(a, b)` and `(b, a)`: in one order `b` is left over and in the other one `a`, to
which the renaming takes it. -/
theorem unify_symmetric_crossed :
    ((unify Crossed.first Crossed.second).run.run Crossed.registry).1.isOk = true ∧
      ∃ ρ σ, Renames Crossed.registry ρ σ
        ((unify Crossed.first Crossed.second).run.run Crossed.registry).2
          ((unify Crossed.second Crossed.first).run.run Crossed.registry).2 ∧
        ρ Sample.b = Sample.a := by
  have hok : ((unify Crossed.first Crossed.second).run.run Crossed.registry).1.isOk = true := by
    decide +kernel
  refine ⟨hok, ?_⟩
  rcases unify_symmetric Crossed.reachable Crossed.holds_first Crossed.holds_second
    Prod.mk.eta.symm Prod.mk.eta.symm with ⟨e, _, he, _⟩ | ⟨t, t', ρ, σ, _, _, hρ, _, hres, _⟩
  · rw [he] at hok
    cases hok
  · have hvar := hres (.var Sample.b) (by decide +kernel)
    have hleft : ((resolve (.var Sample.b)).run
        ((unify Crossed.first Crossed.second).run.run Crossed.registry).2).1 = .var Sample.b := by
      decide +kernel
    have hright : ((resolve (.var Sample.b)).run
        ((unify Crossed.second Crossed.first).run.run Crossed.registry).2).1 = .var Sample.a := by
      decide +kernel
    rw [hleft, hright, mapVars_var] at hvar
    exact ⟨ρ, σ, hρ, (Ty.var.inj hvar).symm⟩

end Registry

end UnitCheck
