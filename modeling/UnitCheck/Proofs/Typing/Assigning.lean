import UnitCheck.Proofs.Typing.Widening

/-!
# Unifying for an assignment

One level of `unifyAssignable` comes to two resolved types, and does nothing if the assignment is
allowed as it stands; else it unifies their operands, or goes through the elements of two tuples
(`LevelRun`).

* `Assigned` — what comes of it: the registry keeps all it had, the assignment is allowed after a
  success, and only variables that the types lead to are bound.
* `Consistent.assigned` — all of it, for every call.
-/

namespace UnitCheck

open Ty Relation List

namespace Registry

variable {r r' : Registry} {a b d s t : Ty} {as bs ds ss : List Ty}

/-- `r'` is consistent and has all that `r` had. -/
structure Evolves (r r' : Registry) : Prop where
  consistent : r'.Consistent
  extends_ : r.Extends r'

theorem Evolves.refl (h : r.Consistent) : r.Evolves r := ⟨h, Extends.refl r⟩

theorem Evolves.trans {r'' : Registry} (h : r.Evolves r') (h' : r'.Evolves r'') : r.Evolves r'' :=
  ⟨h'.consistent, h.extends_.trans h'.extends_⟩

theorem Settled.evolves (h : r.Settled r') : r.Evolves r' := ⟨h.consistent, h.grows.extends⟩

theorem Consistent.unify_evolves (h : r.Consistent) (ha : r.Holds a) (hb : r.Holds b) :
    r.Evolves ((unify a b).run.run r).2 := by
  have hkept := (unify_runs h ha hb).preserves (.pair h ha hb)
  exact ⟨hkept.consistent, hkept.extends_⟩

/-! ## One level -/

/-- What has to be unified for an assignment: the types behind references and arrays that go
together, or else the types themselves. -/
def operands : (dst src : Ty) → Ty × Ty
  | .ref d m l, .ref s n k => if !m || n then (d, s) else (.ref d m l, .ref s n k)
  | .array d m, .array s n => if m.isNone || m == n then (d, s) else (.array d m, .array s n)
  | d, s => (d, s)

/-- What is done with two resolved types in the registry that holds them: nothing if the assignment
is allowed as it stands; else their operands are unified, or tuples are gone through. -/
inductive LevelRun (part : Ty → Ty → UnifyM Unit) (r : Registry) (d s : Ty) :
    Except UnifyFault Unit × Registry → Prop where
  | allowed (h : Widens d s) : LevelRun part r d s (.ok (), r)
  | unified (hno : ¬ Widens d s) {x y : Ty} (hop : operands d s = (x, y))
      (hx : x = d ∨ x ∈ d.parts) (hy : y = s ∨ y ∈ s.parts)
      (hw : ∀ f, Same (x.mapVars f) (y.mapVars f) → Widens (d.mapVars f) (s.mapVars f)) :
      LevelRun part r d s (((unify x y).run.run r).map (·.map fun _ => ()) id)
  | each (hno : ¬ Widens d s) {ds ss : List Ty} (hd : d = .tuple ds) (hs : s = .tuple ss)
      (hlen : ds.length = ss.length) : LevelRun part r d s ((unifyEach part ds ss).run.run r)

/-- A level that was run: the registry has only grown when it comes to the two resolved types. -/
structure Leveled (part : Ty → Ty → UnifyM Unit) (r : Registry) (dst src : Ty)
    (out : Except UnifyFault Unit × Registry) (r₁ : Registry) : Prop extends Settled r r₁ where
  left : Plain r₁ (r.applied dst)
  right : Plain r₁ (r.applied src)
  run : LevelRun part r₁ (r.applied dst) (r.applied src) out

theorem discard_unify_run (a b : Ty) (r : Registry) :
    (discard (unify a b) : UnifyM Unit).run.run r =
      ((unify a b).run.run r).map (·.map fun _ => ()) id := by
  have hrun : (discard (unify a b) : UnifyM Unit).run.run r =
      andThen ((unify a b).run.run r) fun _ r' => (.ok (), r') := run_bind _ _ r
  rw [hrun]
  rcases (unify a b).run.run r with ⟨_ | _, _⟩ <;> rfl

/-- One level of an assignment in full: which case it is in, and what it leaves to `part`. -/
theorem Consistent.unifyAssignableLevel_run (part : Ty → Ty → UnifyM Unit)
    (h : r.Consistent) {dst src : Ty} (hd : r.Holds dst) (hs : r.Holds src) :
    ∃ r₁, Leveled part r dst src ((unifyAssignableLevel part dst src).run.run r) r₁ := by
  have hrd := h.resolve_run hd
  have hrs := hrd.consistent.resolve_run (hrd.grows.holds hs)
  have hplain := h.plain_applied hd (hrd.grows.trans hrs.grows) (hrs.grows.holds hrd.holds)
  have hplain' := hrd.consistent.plain_applied (hrd.grows.holds hs) hrs.grows hrs.holds
  rw [hrd.grows.applied] at hplain'
  have has := hrs.consistent.assignable_settled hplain.holds hplain'.holds
  have hiff := hrs.consistent.assignable_iff hplain.holds hplain'.holds
  rw [hplain.applied_eq, hplain'.applied_eq] at hiff
  refine ⟨_, (hrd.toSettled.trans hrs.toSettled).trans has, hplain.grows has.grows,
    hplain'.grows has.grows, ?_⟩
  rw [unifyAssignableLevel, run_lift_bind, run_lift_bind, run_lift_bind, hrd.type_eq, hrs.type_eq,
    hrd.grows.applied]
  -- from here on only the resolved types and the verdict on widening matter
  generalize r.applied dst = d, r.applied src = s at hiff ⊢
  generalize ((resolve src).run ((resolve dst).run r).2).2 = r₂ at hiff ⊢
  generalize (assignable d s).run r₂ = o at hiff ⊢
  by_cases hw : Widens d s
  · rw [if_pos (hiff.mpr hw)]
    exact .allowed hw
  rw [if_neg fun ho => hw (hiff.mp ho)]
  -- where there are no parts to go into, the types are unified as a whole
  have hwhole : operands d s = (d, s) →
      LevelRun part o.2 d s ((discard (unify d s) : UnifyM Unit).run.run o.2) := fun hop =>
    discard_unify_run d s _ ▸ .unified hw hop (.inl rfl) (.inl rfl) fun f hsame => .same hsame
  split
  next x m l y n k =>
    split
    next hm =>
      rw [discard_unify_run]
      exact .unified hw (if_pos hm) (.inr (.head [])) (.inr (.head [])) fun f hsame => .ref hm hsame
    · next hm => exact hwhole (if_neg hm)
  next x m y n =>
    split
    next hm =>
      rw [discard_unify_run]
      exact .unified hw (if_pos hm) (.inr (.head [])) (.inr (.head [])) fun f hsame =>
        .array hm hsame
    · next hm => exact hwhole (if_neg hm)
  next ds ss =>
    split
    · next hlen => exact .each hw rfl rfl hlen
    · exact hwhole rfl
  · next href harray _ => exact hwhole (operands.eq_3 d s href harray)

/-! ## Variables that types lead to -/

/-- What has a property together with all that it leads to stands for a type with the property, if
that goes from the parts of a type to the type. -/
theorem Closed.applied_of {P : Ty → Prop} (hc : r.Closed P) (h : r.Consistent)
    (ht : r.Holds t) (hP : P t) (hnode : ∀ {t u : Ty}, (∀ v, u ≠ .var v) → u.label = t.label → P t →
      (∀ x ∈ u.parts, P x) → P u) :
    P (r.applied t) := by
  induction t, ht using h.walk_induction with
  | free v _ hb => rwa [applied_free hb]
  | bound v b _ hb ih =>
    rw [h.applied_bound hb]
    exact ih (hc _ _ hP (.bound hb))
  | node t _ hnv ih =>
    refine hnode (r.applied_ne_var hnv) (label_applied r hnv) hP ?_
    rw [parts_applied r hnv, forall_mem_map]
    exact fun u hu => ih u hu (hc _ _ hP (.part hu))

theorem Closed.applied {S : TypeVar → Prop} (hc : r.Closed (AllVars S)) (h : r.Consistent)
    (ht : r.Holds t) (hS : t.AllVars S) : (r.applied t).AllVars S := by
  refine hc.applied_of h ht hS fun hnv _ _ hparts v hm => ?_
  obtain ⟨u, hu, hm⟩ := (mentions_iff_parts hnv).mp hm
  exact hparts u hu v hm

/-- The variables whose types have variables of one kind only. -/
def Bearing (r : Registry) (S : TypeVar → Prop) (v : TypeVar) : Prop :=
  (r.applied (.var v)).AllVars S

variable {S : TypeVar → Prop} {part : Ty → Ty → UnifyM Unit}

theorem allVars_bearing_iff : t.AllVars (r.Bearing S) ↔ (r.applied t).AllVars S := by
  constructor
  · intro h w hm
    rw [applied_eq_mapVars, mentions_mapVars] at hm
    obtain ⟨v, hv, hw⟩ := hm
    exact h v hv w hw
  · intro h v hv w hw
    refine h w ?_
    rw [applied_eq_mapVars, mentions_mapVars]
    exact ⟨v, hv, hw⟩

theorem Consistent.closed_bearing (h : r.Consistent) (S : TypeVar → Prop) :
    r.Closed (AllVars (r.Bearing S)) := by
  intro t u ht hchild
  cases hchild with
  | part hu => exact ht.part hu
  | bound hb =>
    rw [allVars_bearing_iff, h.applied_bound hb] at ht
    exact allVars_bearing_iff.mpr ht

/-! ## What a call does -/

/-- What comes of unifying pairs for assignments. -/
structure Assigned (r : Registry) (ds ss : List Ty)
    (out : Except UnifyFault Unit × Registry) : Prop where
  evolves : r.Evolves out.2
  widens : out.1 = .ok () → ∀ p ∈ ds.zip ss, Widens (out.2.applied p.1) (out.2.applied p.2)
  binds : ∀ {S : TypeVar → Prop}, r.Closed (AllVars S) → (∀ d ∈ ds, d.AllVars S) →
    (∀ s ∈ ss, s.AllVars S) → BindsOnly (AllVars S) r out.2

/-- A check of pairs that does so. -/
def Assigns (part : Ty → Ty → UnifyM Unit) : Prop :=
  ∀ {r : Registry} {d s : Ty}, r.Consistent → r.Holds d → r.Holds s →
    Assigned r [d] [s] ((part d s).run.run r)

theorem Settled.assigned {out : Except UnifyFault Unit} (h : r.Settled r')
    (hw : out = .ok () → ∀ p ∈ ds.zip ss, Widens (r.applied p.1) (r.applied p.2)) :
    Assigned r ds ss (out, r') := by
  refine ⟨h.evolves, fun hok p hp => ?_, fun hc _ _ => .grows hc h.grows⟩
  rw [h.grows.applied, h.grows.applied]
  exact hw hok p hp

/-- If `part` assigns one pair, then `unifyEach` assigns the pairs of two lists one after the
other. -/
theorem Assigns.unifyEach (hpart : Assigns part) (h : r.Consistent) (hd : ∀ d ∈ ds, r.Holds d)
    (hs : ∀ s ∈ ss, r.Holds s) : Assigned r ds ss ((unifyEach part ds ss).run.run r) := by
  induction ds generalizing ss r with
  | nil => exact (Settled.refl h).assigned fun _ p hp => by simp at hp
  | cons d ds ih =>
    cases ss with
    | nil => exact (Settled.refl h).assigned fun _ p hp => by simp at hp
    | cons s ss =>
      rw [forall_mem_cons] at hd hs
      have hfirst := hpart h hd.1 hs.1
      rw [Registry.unifyEach, run_bind]
      generalize (part d s).run.run r = o at hfirst ⊢
      obtain ⟨⟨h₁, he⟩, hw, hb⟩ := hfirst
      obtain ⟨e | _, r₁⟩ := o
      · exact ⟨⟨h₁, he⟩, fun hok => (by cases hok), fun hc hSd hSs =>
          hb hc (forall_mem_singleton.mpr (hSd d (.head _)))
            (forall_mem_singleton.mpr (hSs s (.head _)))⟩
      · obtain ⟨⟨h₂, he'⟩, hw', hb'⟩ := ih h₁ (fun x hx => he.holds (hd.2 x hx))
          fun x hx => he.holds (hs.2 x hx)
        refine ⟨⟨h₂, he.trans he'⟩, fun hok => ?_, fun hc hSd hSs => ?_⟩
        · -- the first pair stays as it is while the others are unified
          rw [zip_cons_cons, forall_mem_cons]
          exact ⟨h₁.widens_mono h₂ he' (he.holds hd.1) (he.holds hs.1)
            (hw rfl _ (.head _)), hw' hok⟩
        · rw [forall_mem_cons] at hSd hSs
          have hfirst := hb hc (forall_mem_singleton.mpr hSd.1) (forall_mem_singleton.mpr hSs.1)
          exact hfirst.trans he (hb' hfirst.closed hSd.2 hSs.2)

/-- Operands that were unified are the same from then on. -/
theorem Ready.same_after {r₁ r₂ : Registry} {us : List Ty} (h : Ready r (a :: as) (b :: bs))
    (run : UnifyRun r [a] [b] (.ok us) r₁) (h₂ : r₂.Consistent) (he : r₁.Extends r₂) :
    Same (r₂.applied a) (r₂.applied b) := by
  have hready : Ready r [a] [b] := .pair h.consistent h.holds_left h.holds_right
  have hkept := run.preserves hready
  have hHa := hkept.extends_.holds h.holds_left
  have hHb := hkept.extends_.holds h.holds_right
  have hid := (forall₂_cons.mp (run.sound hready rfl).operands).1
  rw [← h₂.identical_iff_same (he.holds hHa) (he.holds hHb)]
  exact hkept.consistent.identical_mono h₂ he hHa hHb hid

theorem Consistent.unify_same (h : r.Consistent) (ha : r.Holds a) (hb : r.Holds b) {u : Ty}
    (hu : ((unify a b).run.run r).1 = .ok u) :
    Same (((unify a b).run.run r).2.applied a) (((unify a b).run.run r).2.applied b) := by
  have run := unify_runs h ha hb
  rw [hu] at run
  exact Ready.same_after (.pair h ha hb) run (h.unify_evolves ha hb).consistent (Extends.refl _)

/-- One level more: what `part` does for the parts of two types, a level does for the types. -/
theorem Assigns.level (hpart : Assigns part) : Assigns (unifyAssignableLevel part) := by
  intro r dst src h hd hs
  obtain ⟨r₁, hset, hl, hr, hlevel⟩ := h.unifyAssignableLevel_run part hd hs
  have h₁ := hset.consistent
  have hmono : ∀ {q : Registry}, r₁.Evolves q → ∀ {t}, r.Holds t →
      q.applied t = (r.applied t).mapVars fun v => q.applied (.var v) := fun hq _ ht =>
    h.applied_mono hq.consistent (hset.grows.extends.trans hq.extends_) ht
  have hAd : ∀ {S}, r.Closed (AllVars S) → dst.AllVars S → (r.applied dst).AllVars S :=
    fun hc => hc.applied h hd
  have hAs : ∀ {S}, r.Closed (AllVars S) → src.AllVars S → (r.applied src).AllVars S :=
    fun hc => hc.applied h hs
  generalize (unifyAssignableLevel part dst src).run.run r = o at hlevel ⊢
  -- what was done in the registry with the two resolved types, seen from the first one
  have hfrom : ∀ ds ss : List Ty, Assigned r₁ ds ss o →
      (∀ {S}, (r.applied dst).AllVars S → ∀ x ∈ ds, x.AllVars S) →
      (∀ {S}, (r.applied src).AllVars S → ∀ x ∈ ss, x.AllVars S) →
      (o.1 = .ok () → Widens ((r.applied dst).mapVars fun v => o.2.applied (.var v))
        ((r.applied src).mapVars fun v => o.2.applied (.var v))) → Assigned r [dst] [src] o := by
    intro ds ss has hxd hxs hw
    refine ⟨hset.evolves.trans has.evolves, fun hok p hp => ?_, fun hc hSd hSs => ?_⟩
    · obtain rfl := mem_singleton.mp hp
      rw [hmono has.evolves hd, hmono has.evolves hs]
      exact hw hok
    · exact (BindsOnly.grows hc hset.grows).trans hset.grows.extends
        (has.binds (hc.grows hset.grows)
        (hxd (hAd hc (hSd dst (.head _)))) (hxs (hAs hc (hSs src (.head _)))))
  generalize r.applied dst = d, r.applied src = s at *
  cases hlevel with
  | allowed hw =>
    exact hfrom [] [] ((Settled.refl h₁).assigned fun _ p hp => (by simp at hp))
      (fun _ x hx => by simp at hx) (fun _ x hx => by simp at hx) fun _ => hw.mapVars _
  | @unified _ x y _ hx hy hw =>
    have hHx := hx.elim (fun heq => heq ▸ hl.holds) (h₁.holds_part hl.holds)
    have hHy := hy.elim (fun heq => heq ▸ hr.holds) (h₁.holds_part hr.holds)
    have run := unify_runs h₁ hHx hHy
    have hsame := fun u => h₁.unify_same hHx hHy (u := u)
    have hev := h₁.unify_evolves hHx hHy
    generalize (unify x y).run.run r₁ = p at *
    have hok : (p.1.map fun _ => ()) = .ok () → Same (p.2.applied x) (p.2.applied y) := by
      obtain ⟨_ | u, _⟩ := p
      · exact fun hok => (by cases hok)
      · exact fun _ => hsame u rfl
    refine hfrom [x] [y] ⟨hev, fun hout q hq => ?_, fun hc hSx hSy => ?_⟩
      (fun hS u hu => ?_) (fun hS u hu => ?_) fun hout => hw _ (hok hout)
    · obtain rfl := mem_singleton.mp hq
      exact .same (hok hout)
    · exact run.bindsOnly (.pair h₁ hHx hHy) hc hSx hSy
    · obtain rfl := mem_singleton.mp hu
      exact hx.elim (fun heq => heq ▸ hS) hS.part
    · obtain rfl := mem_singleton.mp hu
      exact hy.elim (fun heq => heq ▸ hS) hS.part
  | @each _ ds ss hds hss hlen =>
    subst hds hss
    have heach := hpart.unifyEach h₁ (fun d hd => h₁.holds_part hl.holds hd)
      (fun s hs => h₁.holds_part hr.holds hs)
    refine hfrom _ _ heach (fun hS _ => hS.part) (fun hS _ => hS.part) fun hok => ?_
    rw [Ty.mapVars, Ty.mapVars, mapVarsAll_eq_map, mapVarsAll_eq_map]
    refine .tuple (by rw [length_map, length_map, hlen]) (forall_mem_zip_map ?_)
    exact heach.widens hok

theorem assigns_unifyAssignableWithin (n : Nat) : Assigns (unifyAssignableWithin n) := by
  induction n with
  | zero =>
    intro r d s h hd hs
    obtain ⟨herr, hset⟩ := h.failMismatch_run (α := Unit) hd hs
    rw [unifyAssignableWithin]
    generalize (failMismatch d s : UnifyM Unit).run.run r = o at *
    refine hset.assigned fun hok => ?_
    rw [herr] at hok
    cases hok
  | succ n ih =>
    intro r d s h hd hs
    rw [unifyAssignableWithin]
    exact ih.level h hd hs

theorem unifyAssignable_run (r : Registry) (d s : Ty) : (unifyAssignable d s).run.run r =
      (unifyAssignableLevel (unifyAssignableWithin r.size) d s).run.run r := by
  rw [unifyAssignable, run_bind]
  rfl

/-- **What unifying for an assignment does.** -/
theorem Consistent.assigned (h : r.Consistent) (hd : r.Holds d) (hs : r.Holds s) :
    Assigned r [d] [s] ((unifyAssignable d s).run.run r) := by
  rw [unifyAssignable_run]
  exact assigns_unifyAssignableWithin (r.size + 1) h hd hs

theorem Consistent.unifyAssignable_evolves (h : r.Consistent) (hd : r.Holds d) (hs : r.Holds s) :
    r.Evolves ((unifyAssignable d s).run.run r).2 :=
  (h.assigned hd hs).evolves

theorem Consistent.widens_of_unifyAssignable (h : r.Consistent) (hd : r.Holds d) (hs : r.Holds s)
    (hok : ((unifyAssignable d s).run.run r).1 = .ok ()) :
    Widens (((unifyAssignable d s).run.run r).2.applied d)
      (((unifyAssignable d s).run.run r).2.applied s) :=
  (h.assigned hd hs).widens hok _ (.head _)

/-- The first level sees that an assignment is allowed. -/
theorem Consistent.unifyAssignable_of_widens (h : r.Consistent) (hd : r.Holds d) (hs : r.Holds s)
    (hw : Widens (r.applied d) (r.applied s)) : ((unifyAssignable d s).run.run r).1 = .ok () := by
  rw [unifyAssignable_run]
  obtain ⟨r₁, _, _, _, hrun⟩ := h.unifyAssignableLevel_run (unifyAssignableWithin r.size) hd hs
  generalize (unifyAssignableLevel (unifyAssignableWithin r.size) d s).run.run r = o at hrun ⊢
  cases hrun with
  | allowed => rfl
  | unified hno => exact absurd hw hno
  | each hno => exact absurd hw hno

/-! ## Nothing to be bound -/

/-- All variables of a type are rigid. -/
def Fixed (t : Ty) : Prop := t.AllVars (·.rigid = true)

theorem Consistent.hasFree_eq_false_iff (h : r.Consistent) (ht : r.Holds t) :
    r.hasFree t = false ↔ Fixed (r.applied t) := by
  rw [hasFree, h.anyUnbound_eq _ ht, ← Bool.not_eq_true, anyVar_iff]
  simp [Fixed, AllVars]

/-- Variables of types that are fixed cannot be bound. -/
theorem BindsOnly.quiet_fixed (h : BindsOnly (AllVars (r.Bearing (·.rigid = true))) r r') :
    r.Grows r' := by
  refine h.quiet fun v hv hb => ?_
  have hbear := hv v (mentions_var.mpr rfl)
  rw [Bearing, applied_free hb] at hbear
  exact hbear v (mentions_var.mpr rfl)

/-- Types without variables that can be bound unify just in case they are identical, and nothing is
bound on the way. -/
theorem Consistent.unify_quiet (h : r.Consistent) (ha : r.Holds a) (hb : r.Holds b)
    (hfa : Fixed (r.applied a)) (hfb : Fixed (r.applied b)) : r.Grows ((unify a b).run.run r).2 ∧
      ((∃ t, ((unify a b).run.run r).1 = .ok t) ↔ r.identical a b = true) := by
  have run := unify_runs h ha hb
  have hready : Ready r [a] [b] := .pair h ha hb
  have hg := (run.bindsOnly hready (h.closed_bearing _)
    (forall_mem_singleton.mpr (allVars_bearing_iff.mpr hfa))
    (forall_mem_singleton.mpr (allVars_bearing_iff.mpr hfb))).quiet_fixed
  refine ⟨hg, ?_, fun hid => ?_⟩
  · rintro ⟨t, ht⟩
    -- nothing was bound, so what is identical afterwards was so before
    have hsame := h.unify_same ha hb ht
    rw [hg.applied, hg.applied] at hsame
    exact (h.identical_iff_same ha hb).mpr hsame
  · obtain ⟨_, us, hus⟩ := run.of_identical hready (.cons hid .nil)
    obtain ⟨t, ht, _⟩ := map_singleton_eq_ok hus
    exact ⟨t, ht⟩

/-- Without free variables, unifying for an assignment is asking whether it is allowed. -/
theorem Consistent.unifyAssignable_quiet (h : r.Consistent) (hd : r.Holds d) (hs : r.Holds s)
    (hfd : r.hasFree d = false) (hfs : r.hasFree s = false) :
    (((unifyAssignable d s).run.run r).1 = .ok () ↔ Widens (r.applied d) (r.applied s)) ∧
      r.Grows ((unifyAssignable d s).run.run r).2 := by
  rw [h.hasFree_eq_false_iff hd] at hfd
  rw [h.hasFree_eq_false_iff hs] at hfs
  have hg := ((h.assigned hd hs).binds (h.closed_bearing _)
    (forall_mem_singleton.mpr (allVars_bearing_iff.mpr hfd))
    (forall_mem_singleton.mpr (allVars_bearing_iff.mpr hfs))).quiet_fixed
  refine ⟨⟨fun hok => ?_, h.unifyAssignable_of_widens hd hs⟩, hg⟩
  have hw := h.widens_of_unifyAssignable hd hs hok
  rwa [hg.applied, hg.applied] at hw

end Registry

end UnitCheck
