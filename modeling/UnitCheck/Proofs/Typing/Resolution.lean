import UnitCheck.Proofs.Typing.Bindings
import UnitCheck.Typing.Assign

/-!
# Operations that only register

Resolving a type, copying it with new variables, asking whether one type can be assigned to another
and reporting that two types cannot be unified all add types to the registry, and bind nothing.
`Settled r r'` is what each of them does to the registry: it stays consistent and it grows. The
types they return are registered.
-/

namespace UnitCheck

open Ty Relation List

namespace Registry

variable {r r' : Registry} {t : Ty} {subst : List (TypeVar × Ty)}

/-- A consistent registry came out of `r` by registrations. -/
structure Settled (r r' : Registry) : Prop where
  consistent : r'.Consistent
  grows : r.Grows r'

section

variable (h : r.Consistent) {ps : List TypeVar} {ts : List Ty}
include h

theorem Settled.refl : r.Settled r := ⟨h, Grows.refl r⟩

omit h in
theorem Settled.trans {r'' : Registry} (h : r.Settled r') (h' : r'.Settled r'') : r.Settled r'' :=
  ⟨h'.consistent, h.grows.trans h'.grows⟩

theorem Registered.settled {out : Ty × Registry} (hr : r.Registered t out) : r.Settled out.2 :=
  ⟨h.grows hr.grows hr.interned, hr.grows⟩

/-! ## Applied types -/

/-- A registered type without its bound variables is still over the variables of the registry, and
none of these is bound. -/
theorem Consistent.mentions_applied (ht : r.Holds t) (v : TypeVar)
    (hm : (r.applied t).Mentions v) : r.Holds (.var v) ∧ r.binding? v = none := by
  induction t, ht using h.walk_induction with
  | free w hw hb =>
    rw [applied_free hb, mentions_var] at hm
    obtain rfl := hm
    exact ⟨hw, hb⟩
  | bound w b _ hb ih =>
    rw [h.applied_bound hb] at hm
    exact ih hm
  | node t _ hnv ih =>
    rw [mentions_iff_parts (r.applied_ne_var hnv), parts_applied r hnv] at hm
    obtain ⟨u', hu', hmu⟩ := hm
    obtain ⟨u, hu, rfl⟩ := List.mem_map.mp hu'
    exact ih u hu hmu

theorem Consistent.spans_applied (ht : r.Holds t) : r.Spans (r.applied t) :=
  fun v hm => (h.mentions_applied ht v hm).1

omit h in
theorem Interned.compound_of_holds (h : r.Interned) (ht : r.Holds t) (hnv : ∀ v, t ≠ .var v) :
    (∃ b, t = .basic b) ∨ t.Compound := by
  rcases compound_cases t with ⟨v, rfl⟩ | hb | rfl | hc
  · exact absurd rfl (hnv v)
  · exact .inl hb
  · exact absurd ht h.not_empty
  · exact .inr hc

/-- What a registered type stands for is tidy already. -/
theorem Consistent.tidy_applied (ht : r.Holds t) : (r.applied t).tidy = r.applied t := by
  induction t, ht using h.walk_induction with
  | free v _ hb => rw [applied_free hb, tidy]
  | bound v b _ hb ih => rw [h.applied_bound hb, ih]
  | node t ht hnv ih =>
    rcases h.compound_of_holds ht hnv with ⟨b, rfl⟩ | hc
    · rfl
    · have hc' : (r.applied t).Compound := by
        rw [applied_of_not_var r hnv]
        exact hc.rebuild (length_map _)
      refine hc'.tidy_of_parts fun u' hu' => ?_
      rw [parts_applied r hnv] at hu'
      obtain ⟨u, hu, rfl⟩ := List.mem_map.mp hu'
      exact ih u hu

omit h in
theorem applied_eq_mapVars (r : Registry) (t : Ty) :
    r.applied t = t.mapVars fun v => r.applied (.var v) := rfl

omit h in
theorem label_applied (r : Registry) (h : ∀ v, t ≠ .var v) : (r.applied t).label = t.label :=
  label_mapVars _ h

theorem Consistent.applied_head (ht : r.Holds t) : r.applied (r.head t) = r.applied t := by
  induction t, ht using h.walk_induction with
  | free v _ hb => rw [head_free hb]
  | bound v b _ hb ih => rw [h.head_bound hb, ih, h.applied_bound hb]
  | node t _ hnv _ => rw [head_of_not_var r hnv]

/-- The walk over a type finds the variables of what it stands for. -/
theorem Consistent.anyUnbound_eq (p : TypeVar → Bool) (ht : r.Holds t) :
    r.anyUnbound p r.reach t = (r.applied t).anyVar p := by
  induction t, ht using h.walk_induction with
  | free w _ hb => rw [anyUnbound_free hb, applied_free hb, anyVar_var]
  | bound w b hw hb ih => rw [h.anyUnbound_bound hw hb, ih, h.applied_bound hb]
  | node t _ hnv ih =>
    rw [anyUnbound_of_not_var r p hnv, anyVar_eq_parts p (r.applied_ne_var hnv),
      parts_applied r hnv, List.any_map, Bool.eq_iff_iff, List.any_eq_true, List.any_eq_true]
    exact exists_congr fun u => and_congr_right fun hu => by rw [ih u hu, Function.comp_apply]

/-- **One registry in terms of another.** If each bound variable stands in `r'` for what its binding
stands for there, then `r'` tells what a type stands for by telling it of the variables that `r`
leaves in it. Only what satisfies `P`, on the way down, matters. -/
theorem Consistent.applied_eq_of_bound {P : Ty → Prop} (hclosed : ∀ t u, P t → r.Child t u → P u)
    (hbound : ∀ {v b}, P (.var v) → r.binding? v = some b → r'.applied (.var v) = r'.applied b)
    (ht : r.Holds t)
    (hP : P t) : r'.applied t = (r.applied t).mapVars fun v => r'.applied (.var v) := by
  induction t, ht using h.walk_induction with
  | free v _ hb => rw [applied_free hb, mapVars_var]
  | bound v b _ hb ih =>
    rw [hbound hP hb, ih (hclosed _ _ hP (.bound hb)), h.applied_bound hb]
  | node t _ hnv ih =>
    have hparts : t.parts.map r'.applied =
        (r.applied t).parts.map (mapVars fun v => r'.applied (.var v)) := by
      rw [parts_applied r hnv, List.map_map]
      exact map_congr_left fun u hu => ih u hu (hclosed _ _ hP (.part hu))
    rw [mapVars_eq_rebuild _ (r.applied_ne_var hnv), ← hparts, applied_of_not_var r hnv,
      applied_of_not_var r' hnv, lifetime_rebuild_self]
    refine rebuild_congr (label_rebuild (by rw [length_map])).symm ?_
    rw [length_map]

/-- What a type stands for later, by what it stands for now. -/
theorem Consistent.applied_mono (h' : r'.Consistent) (he : r.Extends r') (ht : r.Holds t) :
    r'.applied t = (r.applied t).mapVars fun v => r'.applied (.var v) :=
  h.applied_eq_of_bound (P := fun _ => True) (fun _ _ _ _ => trivial)
    (fun _ hb => h'.applied_bound (he.binding hb)) ht trivial

/-! ## Resolving -/

omit h in
theorem registerTerm_run (h : r.Interned) (hs : r.Spans t) :
    (registerTerm t).run r = (register t).run r := by
  cases t with
  | var v =>
    rw [register_run_of_holds h (hs v (mentions_var.mpr rfl))]
    rfl
  | _ => rfl

theorem resolve_run_eq (ht : r.Holds t) : (resolve t).run r = (register (r.applied t)).run r :=
  registerTerm_run h.toInterned (h.spans_applied ht)

/-- What resolving `t` in `r` has to give. -/
structure Resolved (r : Registry) (t : Ty) (out : Ty × Registry) :
    Prop extends Settled r out.2 where
  type_eq : out.1 = r.applied t
  holds : out.2.Holds (r.applied t)

/-- **Resolution.** A registered type is resolved to the type without its bound variables, which is
registered from then on. -/
theorem Consistent.resolve_run (ht : r.Holds t) : r.Resolved t ((resolve t).run r) := by
  have hr := register_run h.toInterned (h.spans_applied ht)
  rw [← resolve_run_eq h ht] at hr
  refine ⟨hr.settled h, ?_, ?_⟩
  · rw [hr.type_eq, h.tidy_applied ht]
  · have hholds := hr.holds
    rwa [h.tidy_applied ht] at hholds

/-! ## Copies with new variables -/

/-- What a copy puts in the place of a variable. -/
def replacement (subst : List (TypeVar × Ty)) (v : TypeVar) : Ty :=
  (subst.reverse.lookup v).getD (.var v)

omit h in
theorem replacement_cases (subst : List (TypeVar × Ty)) (v : TypeVar) :
    replacement subst v = .var v ∨ ∃ p ∈ subst, replacement subst v = p.2 := by
  unfold replacement
  cases hl : subst.reverse.lookup v with
  | none => exact .inl rfl
  | some t => exact .inr ⟨(v, t), mem_reverse.mp (mem_of_lookup hl), rfl⟩

omit h in
theorem holds_replacement (hs : ∀ p ∈ subst, r.Holds p.2) {v : TypeVar} (hv : r.Holds (.var v)) :
    r.Holds (replacement subst v) := by
  rcases replacement_cases subst v with heq | ⟨p, hp, heq⟩
  · rwa [heq]
  · rw [heq]
    exact hs p hp

/-- If all that is put in is registered, a copy of a registered type is over the variables of the
registry. -/
theorem Consistent.spans_copy {leaf : TypeVar → Ty}
    (hl : ∀ v, r.Holds (.var v) → r.Holds (leaf v)) (ht : r.Holds t) :
    r.Spans ((r.applied t).mapVars leaf) := by
  intro w hm
  obtain ⟨v, hmv, hmw⟩ := mentions_mapVars.mp hm
  exact h.spans (hl v (h.spans_applied ht v hmv)) w hmw

theorem Consistent.substitute_run_eq (hs : ∀ p ∈ subst, r.Holds p.2) (ht : r.Holds t) :
    (substitute subst t).run r = (register ((r.applied t).mapVars (replacement subst))).run r :=
  registerTerm_run h.toInterned (h.spans_copy (fun _ => holds_replacement hs) ht)

theorem Consistent.substitute_run (hs : ∀ p ∈ subst, r.Holds p.2) (ht : r.Holds t) :
    r.Registered ((r.applied t).mapVars (replacement subst)) ((substitute subst t).run r) := by
  rw [h.substitute_run_eq hs ht]
  exact register_run h.toInterned (h.spans_copy (fun _ => holds_replacement hs) ht)

omit h in
theorem Consistent.newVar (h : r.Consistent) (hint : String) (rigid : Bool) :
    r.Settled ((newVar hint rigid).run r).2 :=
  ⟨h.grows (grows_newVar r hint rigid) (h.toInterned.newVar hint rigid), grows_newVar r hint rigid⟩

omit h in
theorem freshen_cons_run (p : TypeVar) (ps : List TypeVar) (r : Registry) :
    (freshen (p :: ps)).run r =
      ((p, .var ((newVar p.hint).run r).1) :: ((freshen ps).run ((newVar p.hint).run r).2).1,
        ((freshen ps).run ((newVar p.hint).run r).2).2) := rfl

/-- New variables are registered, and nothing else changes. -/
theorem Consistent.freshen_run (ps : List TypeVar) : r.Settled ((freshen ps).run r).2 ∧
      ∀ p ∈ ((freshen ps).run r).1, ((freshen ps).run r).2.Holds p.2 := by
  induction ps generalizing r with
  | nil => exact ⟨Settled.refl h, fun p hp => absurd (show p ∈ [] from hp) not_mem_nil⟩
  | cons p ps ih =>
    have hnew := h.newVar p.hint false
    obtain ⟨hsettled, hholds⟩ := ih hnew.consistent
    rw [freshen_cons_run]
    refine ⟨hnew.trans hsettled, ?_⟩
    intro q hq
    rcases mem_cons.mp hq with rfl | hq
    · exact hsettled.grows.holds (holds_newVar r p.hint false)
    · exact hholds q hq

omit h in
theorem substituteAll_cons_run (subst : List (TypeVar × Ty)) (t : Ty) (ts : List Ty)
    (r : Registry) :
    ((t :: ts).mapM (substitute subst)).run r = (((substitute subst t).run r).1 ::
          ((ts.mapM (substitute subst)).run ((substitute subst t).run r).2).1,
        ((ts.mapM (substitute subst)).run ((substitute subst t).run r).2).2) := by
  rw [mapM_cons]
  rfl

/-- A substitution registers types and binds nothing. -/
theorem Consistent.substituteAll_run (hs : ∀ p ∈ subst, r.Holds p.2) (hts : ∀ t ∈ ts, r.Holds t) :
    r.Settled ((ts.mapM (substitute subst)).run r).2 ∧ ∀ u ∈ ((ts.mapM (substitute subst)).run r).1,
        ((ts.mapM (substitute subst)).run r).2.Holds u := by
  induction ts generalizing r with
  | nil =>
    rw [mapM_nil]
    exact ⟨Settled.refl h, fun u hu => absurd (show u ∈ [] from hu) not_mem_nil⟩
  | cons t ts ih =>
    have hfirst := h.substitute_run hs (hts t mem_cons_self)
    have hsettled := hfirst.settled h
    obtain ⟨hrest, hholds⟩ := ih hsettled.consistent (fun p hp => hsettled.grows.holds (hs p hp))
      fun u hu => hsettled.grows.holds (hts u (mem_cons_of_mem t hu))
    rw [substituteAll_cons_run]
    refine ⟨hsettled.trans hrest, ?_⟩
    intro u hu
    rcases mem_cons.mp hu with rfl | hu
    · rw [hfirst.type_eq]
      exact hrest.grows.holds hfirst.holds
    · exact hholds u hu

omit h in
theorem instantiate_run (r : Registry) (t : Ty) (hps : ps.isEmpty = false) :
    (instantiate t ps).run r = (substitute ((freshen ps).run r).1 t).run
      ((freshen ps).run r).2 := by
  unfold instantiate
  rw [hps]
  rfl

omit h in
theorem instantiateAll_run (r : Registry) (ts : List Ty) (hps : ps.isEmpty = false) :
    (instantiateAll ts ps).run r =
      (ts.mapM (substitute ((freshen ps).run r).1)).run ((freshen ps).run r).2 := by
  unfold instantiateAll
  rw [hps]
  rfl

/-- **Copies.** A copy of registered types with new variables is registered, and nothing is bound
for it. -/
theorem Consistent.instantiateAll_settled (hts : ∀ t ∈ ts, r.Holds t) (ps : List TypeVar) :
    r.Settled ((instantiateAll ts ps).run r).2 ∧
      ∀ u ∈ ((instantiateAll ts ps).run r).1, ((instantiateAll ts ps).run r).2.Holds u := by
  cases hps : ps.isEmpty with
  | true =>
    have hrun : (instantiateAll ts ps).run r = (ts, r) := by
      unfold instantiateAll
      rw [hps]
      rfl
    rw [hrun]
    exact ⟨Settled.refl h, hts⟩
  | false =>
    obtain ⟨hfresh, hholds⟩ := h.freshen_run ps
    obtain ⟨hsub, hheld⟩ := hfresh.consistent.substituteAll_run hholds
      fun t ht => hfresh.grows.holds (hts t ht)
    rw [instantiateAll_run r ts hps]
    exact ⟨hfresh.trans hsub, hheld⟩

/-- An instance of a type is registered, and nothing is bound for it. -/
theorem Consistent.instantiate_settled (ht : r.Holds t) (ps : List TypeVar) :
    r.Settled ((instantiate t ps).run r).2 ∧
      ((instantiate t ps).run r).2.Holds ((instantiate t ps).run r).1 := by
  cases hps : ps.isEmpty with
  | true =>
    have hrun : (instantiate t ps).run r = (t, r) := by
      unfold instantiate
      rw [hps]
      rfl
    rw [hrun]
    exact ⟨Settled.refl h, ht⟩
  | false =>
    obtain ⟨hfresh, hholds⟩ := h.freshen_run ps
    have hsub := hfresh.consistent.substitute_run hholds (hfresh.grows.holds ht)
    rw [instantiate_run r t hps, hsub.type_eq]
    exact ⟨hfresh.trans (hsub.settled hfresh.consistent), hsub.holds⟩

/-! ## Assignability and mismatches -/

theorem Consistent.assignable_settled {dst src : Ty} (hd : r.Holds dst)
    (hs : r.Holds src) : r.Settled ((assignable dst src).run r).2 := by
  have hdst := h.resolve_run hd
  have hsrc := hdst.consistent.resolve_run (hdst.grows.holds hs)
  exact hdst.toSettled.trans hsrc.toSettled

/-- A mismatch is reported with what the two types stand for. -/
theorem Consistent.failMismatch_run {α : Type} {a b : Ty} (ha : r.Holds a) (hb : r.Holds b) :
    ((failMismatch a b : UnifyM α).run.run r).1 = .error (.mismatch (r.applied a) (r.applied b)) ∧
      r.Settled ((failMismatch a b : UnifyM α).run.run r).2 := by
  have hra := h.resolve_run ha
  have hrb := hra.consistent.resolve_run (hra.grows.holds hb)
  have hrun : (failMismatch a b : UnifyM α).run.run r =
      (.error (.mismatch ((resolve a).run r).1 ((resolve b).run ((resolve a).run r).2).1),
        ((resolve b).run ((resolve a).run r).2).2) := rfl
  rw [hrun]
  refine ⟨?_, hra.toSettled.trans hrb.toSettled⟩
  rw [hra.type_eq, hrb.type_eq, hra.grows.applied]

end

end Registry

end UnitCheck
