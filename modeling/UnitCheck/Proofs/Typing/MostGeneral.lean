import UnitCheck.Proofs.Typing.Reachability

/-!
# Most general unifiers

A solution gives every variable a type, itself to a rigid one, and agrees with the bindings of a
registry up to lifetimes (`Respects`). Unification finds the most general solution of an equation
between two types:

* `UnifyRun.sound` — what a run has unified is identical afterwards.
* `UnifyRun.complete` — a solution of the equations keeps a run from failing, and is a solution of
  the bindings that the run has made. Here no invalid type may be in the way, since that goes with
  anything.
* `respects_applied` — the bindings of a registry are solved by what its variables stand for, so
  that a run that succeeds leaves a solution behind.
-/

namespace UnitCheck

open Relation List

variable {a b t u x : Ty} {as bs us : List Ty} {r : Registry} {v : TypeVar}

namespace Ty

/-! ## Types up to lifetimes -/

mutual

/-- The type with no lifetimes. -/
def erased : Ty → Ty
  | basic b => basic b
  | array elem n => array elem.erased n
  | tuple elems => tuple (erasedAll elems)
  | func params result => func (erasedAll params) result.erased
  | ref inner m _ => ref inner.erased m none
  | named name args => named name (erasedAll args)
  | var v => var v

def erasedAll : List Ty → List Ty
  | [] => []
  | t :: ts => t.erased :: erasedAll ts

end

theorem erasedAll_eq_map (ts : List Ty) : erasedAll ts = ts.map erased := by
  induction ts with
  | nil => rfl
  | cons t ts ih => rw [erasedAll, ih, map_cons]

theorem erased_eq_rebuild (t : Ty) : t.erased = t.rebuild none (t.parts.map erased) := by
  cases t <;> simp [erased, rebuild, parts, erasedAll_eq_map]

theorem label_erased (t : Ty) : t.erased.label = t.label := by
  rw [erased_eq_rebuild, label_rebuild (length_map _)]

theorem parts_erased (t : Ty) : t.erased.parts = t.parts.map erased := by
  rw [erased_eq_rebuild, parts_rebuild (length_map _)]

theorem erased_eq_iff :
    a.erased = b.erased ↔ a.label = b.label ∧ a.parts.map erased = b.parts.map erased := by
  constructor
  · intro h
    rw [← label_erased a, ← label_erased b, ← parts_erased, ← parts_erased, h]
    exact ⟨rfl, rfl⟩
  · rintro ⟨hlab, hparts⟩
    refine eq_of_shape ?_ ?_ ?_
    · rw [label_erased, label_erased, hlab]
    · rw [erased_eq_rebuild a, erased_eq_rebuild b, lifetime_rebuild_none, lifetime_rebuild_none]
    · rw [parts_erased, parts_erased, hparts]

/-! ## Broken types -/

mutual

/-- Whether the invalid type is part of a type. -/
def broken : Ty → Bool
  | basic b => b == .invalid
  | array elem _ => elem.broken
  | tuple elems => brokenAny elems
  | func params result => brokenAny params || result.broken
  | ref inner _ _ => inner.broken
  | named _ args => brokenAny args
  | var _ => false

def brokenAny : List Ty → Bool
  | [] => false
  | t :: ts => t.broken || brokenAny ts

end

theorem brokenAny_eq_any (ts : List Ty) : brokenAny ts = ts.any broken := by
  induction ts with
  | nil => rfl
  | cons t ts ih => rw [brokenAny, ih, any_cons]

theorem broken_eq_parts (h : ∀ b, t ≠ basic b) : t.broken = t.parts.any broken := by
  cases t with
  | basic b => exact absurd rfl (h b)
  | _ => simp [broken, parts, brokenAny_eq_any]

/-- The parts of a type that is not broken are not broken. -/
theorem broken_of_part (ht : t.broken = false) (hu : u ∈ t.parts) : u.broken = false := by
  have hnb : ∀ b, t ≠ basic b := by
    rintro b rfl
    simp [parts] at hu
  rw [broken_eq_parts hnb, List.any_eq_false] at ht
  simpa using ht u hu

theorem ne_invalid_of_sound (h : t.broken = false) : t ≠ .invalid := by
  rintro rfl
  cases h

/-- Types that are the same are equal up to lifetimes, unless they are broken. -/
theorem Same.erased_eq (h : Same a b) (ha : a.broken = false) (hb : b.broken = false) :
    a.erased = b.erased := by
  induction h with
  | left => exact absurd rfl (ne_invalid_of_sound ha)
  | right => exact absurd rfl (ne_invalid_of_sound hb)
  | @parts a b label _ ih =>
    refine erased_eq_iff.mpr ⟨label, ?_⟩
    rw [← forall₂_eq_eq_eq, forall₂_map_left_iff, forall₂_map_right_iff, forall₂_iff_zip]
    refine ⟨length_parts_of_label label, fun {x y} hp => ih (x, y) hp ?_ ?_⟩
    · exact broken_of_part ha (of_mem_zip hp).1
    · exact broken_of_part hb (of_mem_zip hp).2

/-! ## Values -/

/-- What a type becomes under a substitution, up to lifetimes. -/
def under (σ : TypeVar → Ty) (t : Ty) : Ty := (t.mapVars σ).erased

variable {σ : TypeVar → Ty}

theorem under_var (σ : TypeVar → Ty) (v : TypeVar) : (var v).under σ = (σ v).erased := by
  rw [under, mapVars_var]

theorem label_under (h : ∀ v, t ≠ var v) : (t.under σ).label = t.label := by
  rw [under, label_erased, label_mapVars σ h]

theorem parts_under (h : ∀ v, t ≠ var v) : (t.under σ).parts = t.parts.map (under σ) := by
  rw [under, parts_erased, parts_mapVars σ h, List.map_map]
  rfl

theorem map_under_eq_iff : as.map (under σ) = bs.map (under σ) ↔
      List.Forall₂ (fun a b => a.under σ = b.under σ) as bs := by
  rw [← forall₂_eq_eq_eq, forall₂_map_left_iff, forall₂_map_right_iff]

/-- Types that are no variables have one value exactly if they have one label, and their parts have
one value pair by pair. -/
theorem under_eq_iff (ha : ∀ v, a ≠ var v) (hb : ∀ v, b ≠ var v) : a.under σ = b.under σ ↔
      a.label = b.label ∧ List.Forall₂ (fun x y => x.under σ = y.under σ) a.parts b.parts := by
  rw [under, under, erased_eq_iff, label_mapVars σ ha, label_mapVars σ hb, parts_mapVars σ ha,
    parts_mapVars σ hb, List.map_map, List.map_map, ← map_under_eq_iff]
  rfl

end Ty

open Ty

namespace Registry

/-! ## Variables that can be bound -/

/-- A variable that can be bound. -/
def Flexible (t : Ty) : Prop := ∃ v : TypeVar, t = .var v ∧ v.rigid = false

theorem target?_of_left (hv : v.rigid = false) (b : Ty) : target? (.var v) b = some (v, b) := by
  cases b <;> simp [target?, hv]

theorem target?_of_right (hv : v.rigid = false) (ha : ¬ Flexible a) :
    target? a (.var v) = some (v, a) := by
  cases a with
  | var w =>
    have hw : w.rigid = true := Bool.not_eq_false _ ▸ fun hw => ha ⟨w, rfl, hw⟩
    simp [target?, hv, hw]
  | _ => simp [target?, hv]

theorem target?_eq_none_iff : target? a b = none ↔ ¬ Flexible a ∧ ¬ Flexible b := by
  constructor
  · intro h
    have ha : ¬ Flexible a := by
      rintro ⟨v, rfl, hv⟩
      rw [target?_of_left hv] at h
      cases h
    refine ⟨ha, ?_⟩
    rintro ⟨v, rfl, hv⟩
    rw [target?_of_right hv ha] at h
    cases h
  · rintro ⟨ha, hb⟩
    cases h : target? a b with
    | none => rfl
    | some p =>
      obtain ⟨hv, hside⟩ := target?_cases h
      rcases hside with ⟨heq, _⟩ | ⟨heq, _⟩
      · exact absurd ⟨_, heq, hv⟩ ha
      · exact absurd ⟨_, heq, hv⟩ hb

/-! ## Values -/

/-- A relation between types and values that goes with the bindings of a registry. All values of a
variable are values of the same types; other types have the label of their values, and their parts
have the values of their parts, except that nothing is said of the invalid type. A type that a
variable is bound to has the values of that variable. -/
structure Values (V : Ty → Ty → Prop) (r : Registry) : Prop where
  unique : ∀ {v : TypeVar} {u w : Ty}, r.Holds (.var v) → V (.var v) u → V (.var v) w →
    u.size = w.size ∧ ∀ {t}, V t u → V t w
  node : ∀ {t u : Ty}, (∀ v, t ≠ .var v) → t ≠ .invalid → V t u →
    t.label = u.label ∧ List.Forall₂ V t.parts u.parts
  rigid : ∀ {v : TypeVar} {u : Ty}, r.Holds (.var v) → v.rigid = true → V (.var v) u → u = .var v
  bound : ∀ {v : TypeVar} {t u : Ty}, r.Holds (.var v) → r.binding? v = some t →
    V (.var v) u → V t u

theorem holds_var_of_add (ht : t.Compound) (hv : (r.add t).Holds (.var v)) : r.Holds (.var v) := by
  rw [Holds, types_add] at hv
  split at hv
  · exact hv
  · rcases mem_append.mp hv with hv | hv
    · exact hv
    · exact absurd (mem_singleton.mp hv).symm (ht.2.1 v)

namespace Values

variable {V : Ty → Ty → Prop}

theorem add (h : Values V r) (ht : t.Compound) : Values V (r.add t) := by
  refine ⟨fun hv => h.unique (holds_var_of_add ht hv), h.node,
    fun hv => h.rigid (holds_var_of_add ht hv),
    fun hv hb => ?_⟩
  rw [(grows_add r t).binding?] at hb
  exact h.bound (holds_var_of_add ht hv) hb

/-- A head has the values of the type. -/
theorem head (hs : Values V r) (h : r.Consistent) (ht : r.Holds t) (hu : V t u) :
    V (r.head t) u := by
  induction t, ht using h.walk_induction with
  | free v _ hb => rwa [head_free hb]
  | bound v b hv hb ih => exact h.head_bound hb ▸ ih (hs.bound hv hb hu)
  | node t _ hnv _ => rwa [head_of_not_var r hnv]

theorem part (hs : Values V r) (hu : V t u) (hx : x ∈ t.parts) : ∃ w, V x w ∧ w.size < u.size := by
  have hnv : ∀ v, t ≠ .var v := by
    rintro v rfl
    simp [parts] at hx
  have hne : t ≠ .invalid := by
    rintro rfl
    simp [parts] at hx
  obtain ⟨i, hi, rfl⟩ := getElem_of_mem hx
  have hparts := (hs.node hnv hne hu).2
  have hi' : i < u.parts.length := hparts.length_eq ▸ hi
  exact ⟨u.parts[i], hparts.get hi hi', size_lt_of_mem_parts (getElem_mem hi')⟩

theorem reach (hs : Values V r) (h : r.Consistent) (ht : r.Holds t) (hu : V t u)
    (hreach : ReflTransGen r.Child t x) :
    ∃ w, V x w ∧ w.size ≤ u.size := by
  induction hreach with
  | refl => exact ⟨u, hu, le_rfl⟩
  | tail hr hc ih =>
    obtain ⟨w, hw, hle⟩ := ih
    cases hc with
    | part hx =>
      obtain ⟨y, hy, hlt⟩ := hs.part hw hx
      exact ⟨y, hy, hlt.le.trans hle⟩
    | bound hb => exact ⟨w, hs.bound (h.holds_reach ht hr) hb hw, hle⟩

/-- A variable has no value in common with a compound type that it occurs in: the value would be
larger than itself. -/
theorem not_occurs (hs : Values V r) (h : r.Consistent) (hv : r.binding? v = none) (ht : r.Holds t)
    (hfree : ∀ w, t = .var w → r.binding? w = none) (hne : t ≠ .var v) (hocc : r.occurs v t = true)
    (hu : V (.var v) u) (hu' : V t u) : False := by
  rcases ReflTransGen.cases_head ((h.occurs_iff hv ht).mp hocc) with hrefl | ⟨x, hx, hrest⟩
  · exact hne hrefl
  · cases hx with
    | part hp =>
      -- the value of `v` would be larger than itself
      obtain ⟨w, hw, hlt⟩ := hs.part hu' hp
      obtain ⟨y, hy, hle⟩ := hs.reach h (h.holds_part ht hp) hw hrest
      have hsize := (hs.unique (h.holds_reach (h.holds_part ht hp) hrest) hu hy).1
      omega
    | bound hb =>
      rw [hfree _ rfl] at hb
      cases hb

/-- What cannot be bound has the label of its value. -/
theorem label_eq (hs : Values V r) (ht : r.Holds t) (hne : t ≠ .invalid)
    (hr : ¬ Flexible t) (hu : V t u) : t.label = u.label := by
  by_cases hvar : ∃ v, t = .var v
  · obtain ⟨v, rfl⟩ := hvar
    rw [hs.rigid ht (eq_true_of_ne_false fun hv => hr ⟨v, rfl, hv⟩) hu]
  · exact (hs.node (fun v hv => hvar ⟨v, hv⟩) hne hu).1

end Values

/-! ## Completeness -/

/-- Two types have a value in common. -/
def Common (V : Ty → Ty → Prop) (a b : Ty) : Prop := ∃ u, V a u ∧ V b u

section

variable {V : Ty → Ty → Prop} {r₁ : Registry}

/-- **At two heads.** If the operands have a value in common, they do not fail, and what is bound
goes with the values. -/
theorem Ready.settles_complete {out : Except UnifyFault Ty} (h : Ready r (a :: as) (b :: bs))
    (hset : Settles r (r.head a) (r.head b) out r₁) (hs : Values V r) (hval : Common V a b) :
    (∃ u, out = .ok u) ∧ Values V r₁ := by
  have hc := h.consistent
  obtain ⟨u, hua, hub⟩ := hval
  replace hua := hs.head hc h.holds_left hua
  replace hub := hs.head hc h.holds_right hub
  have ha := h.holds_head_left
  have hb := h.holds_head_right
  have hfa := fun v => hc.head_unbound (v := v) h.holds_left
  have hfb := fun v => hc.head_unbound (v := v) h.holds_right
  generalize r.head a = a, r.head b = b at *
  cases hset with
  | same => exact ⟨⟨_, rfl⟩, hs⟩
  | broken => exact ⟨⟨_, rfl⟩, hs⟩
  | bound v t _ _ _ ht _ =>
    have hval : r.Holds (.var v) ∧ V (.var v) u ∧ V t u := by
      rcases (target?_cases ht).2 with ⟨rfl, rfl⟩ | ⟨rfl, rfl⟩
      · exact ⟨ha, hua, hub⟩
      · exact ⟨hb, hub, hua⟩
    refine ⟨⟨t, rfl⟩, fun hw => hs.unique hw, hs.node, fun hw => hs.rigid hw, ?_⟩
    -- the one new binding is between the heads
    intro w x y hw hbw hy
    by_cases hid : w.id = v.id
    · obtain rfl := hc.var_ext hw hval.1 hid
      rw [assign_binding?_of_id_eq rfl, Option.some_inj] at hbw
      exact hbw ▸ (hs.unique hw hval.2.1 hy).2 hval.2.2
    · rw [assign_binding?_of_id_ne hid] at hbw
      exact hs.bound hw hbw hy
  | recursive v t hne _ _ ht hocc _ =>
    rcases (target?_cases ht).2 with ⟨rfl, rfl⟩ | ⟨rfl, rfl⟩
    · exact (hs.not_occurs hc (hfa v rfl) hb hfb hne.symm hocc hua hub).elim
    · exact (hs.not_occurs hc (hfb v rfl) ha hfa hne hocc hub hua).elim
  | clash _ hna hnb ht hlab _ =>
    -- neither head can be bound, so that their labels are those of the value
    obtain ⟨hra, hrb⟩ := target?_eq_none_iff.mp ht
    exact absurd ((hs.label_eq ha hna hra hua).trans (hs.label_eq hb hnb hrb hub).symm) hlab

/-- Types with a value in common have parts with values in common. -/
theorem Ready.parts_common (h : Ready r (a :: as) (b :: bs))
    (hd : Decomposes (r.head a) (r.head b)) (hs : Values V r) (hval : Common V a b) :
    List.Forall₂ (Common V) (r.head a).parts (r.head b).parts := by
  obtain ⟨u, hua, hub⟩ := hval
  have hpa := hs.node hd.not_var.1 hd.left_ne (hs.head h.consistent h.holds_left hua)
  have hpb := hs.node hd.not_var.2 hd.right_ne (hs.head h.consistent h.holds_right hub)
  exact forall₂_trans_of_mem hpa.2 hpb.2.flip fun _ _ _ _ hx hy => ⟨_, hx, hy⟩

end

/-- **Completeness.** If the operands of a run have values in common, it does not fail, and leaves
bindings that go with the values. -/
theorem UnifyRun.complete {V : Ty → Ty → Prop} {r' : Registry} {out : Except UnifyFault (List Ty)}
    (run : UnifyRun r as bs out r') (h : Ready r as bs) (hs : Values V r)
    (hval : List.Forall₂ (Common V) as bs) : (∃ us, out = .ok us) ∧ Values V r' := by
  revert hs hval
  refine UnifyRun.induction_on (P := fun r as bs out r' => Values V r →
    List.Forall₂ (Common V) as bs → (∃ us, out = .ok us) ∧ Values V r')
    ?nil ?settled ?failed ?parts ?partsFailed run h
  case nil => exact fun r _ hs _ => ⟨⟨[], rfl⟩, hs⟩
  case settled =>
    intro r r₁ r₂ a b u as bs out h hset _ _ ih hs hval
    rw [forall₂_cons] at hval
    obtain ⟨⟨us, rfl⟩, hs₂⟩ := ih (h.settles_complete hset hs hval.1).2 hval.2
    exact ⟨⟨u :: us, rfl⟩, hs₂⟩
  case failed =>
    intro r r₁ a b as bs e h hset hs hval
    obtain ⟨⟨u, hu⟩, _⟩ := h.settles_complete hset hs (forall₂_cons.mp hval).1
    cases hu
  case parts =>
    intro r r₁ r₂ a b as bs us out h hd inner ihInner hadd _ _ ihRest hs hval
    rw [forall₂_cons] at hval
    obtain ⟨_, hs₁⟩ := ihInner hs (h.parts_common hd hs hval.1)
    have hcomp := hd.joined_compound h.consistent.toInterned h.holds_head_left
      ((inner.preserves h.parts).length us rfl)
    obtain ⟨⟨vs, rfl⟩, hs₂⟩ := ihRest (hs₁.add hcomp) hval.2
    exact ⟨⟨joined (r.head a) (r.head b) us :: vs, rfl⟩, hs₂⟩
  case partsFailed =>
    intro r r₁ a b as bs e h hd _ ihInner hs hval
    obtain ⟨⟨us, hus⟩, _⟩ := ihInner hs (h.parts_common hd hs (forall₂_cons.mp hval).1)
    cases hus

/-! ## Solutions -/

/-- A substitution that solves the bindings of a registry: rigid variables stand for themselves, and
a bound variable has the value of what it is bound to. -/
structure Respects (σ : TypeVar → Ty) (r : Registry) : Prop where
  rigid : ∀ {v : TypeVar}, r.Holds (.var v) → v.rigid = true → σ v = .var v
  bound : ∀ {v : TypeVar} {t : Ty}, r.Holds (.var v) → r.binding? v = some t →
    (var v).under σ = t.under σ

section

variable {σ : TypeVar → Ty} {r' : Registry}

theorem Respects.of_extends (h : Respects σ r') (he : r.Extends r') : Respects σ r :=
  ⟨fun hv => h.rigid (he.holds hv), fun hv hb => h.bound (he.holds hv) (he.binding hb)⟩

/-- The values that a substitution gives go with the bindings that it solves. -/
theorem respects_iff_values : Respects σ r ↔ Values (fun t u => t.under σ = u) r := by
  constructor
  · intro h
    refine ⟨?_, ?_, ?_, fun hv hb hu => (h.bound hv hb).symm.trans hu⟩
    · rintro v _ _ _ rfl rfl
      exact ⟨rfl, id⟩
    · rintro t _ hnv _ rfl
      rw [label_under hnv, parts_under hnv, forall₂_map_right_iff]
      exact ⟨rfl, forall₂_same.mpr fun _ _ => rfl⟩
    · rintro v _ hv hr rfl
      rw [under_var, h.rigid hv hr]
      rfl
  · intro h
    refine ⟨fun {v} hv hr => ?_, fun hv hb => (h.bound hv hb rfl).symm⟩
    have hval := congrArg label (h.rigid hv hr (under_var σ v))
    rw [label_erased] at hval
    exact eq_var_of_label hval

end

/-- The invalid type is no part of a type. -/
def Sound (t : Ty) : Prop := t.broken = false

theorem closed_sound (h : ∀ v t, r.binding? v = some t → t.broken = false) : r.Closed Sound := by
  intro t u ht hchild
  cases hchild with
  | part hu => exact broken_of_part ht hu
  | bound hbound => exact h _ _ hbound

theorem Consistent.sound_applied (h : r.Consistent) (hc : r.Closed Sound) (ht : r.Holds t)
    (hs : Sound t) : Sound (r.applied t) := by
  refine hc.applied_of h ht hs fun {t u} _ hlab hs hparts => ?_
  by_cases hbasic : ∃ b, u = .basic b
  · obtain ⟨b, rfl⟩ := hbasic
    rwa [eq_basic_of_label hlab.symm] at hs
  · rw [Sound, broken_eq_parts fun b hb => hbasic ⟨b, hb⟩, List.any_eq_false]
    exact fun x hx => Bool.eq_false_iff.mp (hparts x hx)

/-! ## The solution that is found -/

/-- What the variables stand for solves the bindings. -/
theorem Consistent.respects_applied (h : r.Consistent) :
    Respects (fun v => r.applied (.var v)) r := by
  refine ⟨fun hv hr => applied_free (h.binding?_of_rigid hv hr), fun hv hb => ?_⟩
  rw [under, under, ← applied_eq_mapVars, ← applied_eq_mapVars, h.applied_bound hb]

theorem Respects.under_applied {σ : TypeVar → Ty} (hs : Respects σ r) (h : r.Consistent)
    (ht : r.Holds t) :
    (r.applied t).under σ = t.under σ := by
  induction t, ht using h.walk_induction with
  | free v _ hb => rw [applied_free hb]
  | bound v b hv hb ih => rw [h.applied_bound hb, ih, hs.bound hv hb]
  | node t ht hnv ih =>
    rw [under_eq_iff (r.applied_ne_var hnv) hnv, ← map_under_eq_iff, parts_applied r hnv,
      applied_of_not_var r hnv, label_rebuild (length_map _), List.map_map]
    exact ⟨rfl, map_congr_left ih⟩

/-- Identical types are resolved to one type, up to lifetimes. -/
theorem Consistent.under_applied_eq (h : r.Consistent) (hc : r.Closed Sound) (ha : r.Holds a)
    (hb : r.Holds b) (hna : Sound a) (hnb : Sound b) (hid : r.identical a b = true) :
    a.under (fun v => r.applied (.var v)) = b.under (fun v => r.applied (.var v)) := by
  rw [under, under, ← applied_eq_mapVars, ← applied_eq_mapVars]
  exact ((h.identical_iff_same ha hb).mp hid).erased_eq (h.sound_applied hc ha hna)
    (h.sound_applied hc hb hnb)

/-! ## Unification -/

/-- **Unification computes a most general unifier.** If it succeeds, the operands are identical from
then on, and the result is identical to both. If no invalid type is involved, it succeeds exactly
when some substitution solves the bindings and makes the operands equal up to lifetimes; and every
such substitution solves the bindings that unification leaves, and so does not tell a type from what
that is resolved to. -/
theorem unify_most_general {r r' : Registry} (h : r.Reachable) {a b : Ty} (ha : r.Holds a)
    (hb : r.Holds b) {out : Except UnifyFault Ty} (hrun : (unify a b).run.run r = (out, r')) :
    (∀ t, out = .ok t → r'.identical a b = true ∧ r'.identical t a = true ∧
      r'.identical t b = true) ∧
    (a.broken = false → b.broken = false → (∀ v t, r.binding? v = some t → t.broken = false) →
      ((∃ t, out = .ok t) ↔ ∃ σ, Respects σ r ∧ a.under σ = b.under σ) ∧
      ∀ σ, Respects σ r → a.under σ = b.under σ →
        Respects σ r' ∧ ∀ t, r'.Holds t → (r'.applied t).under σ = t.under σ) := by
  have hc := h.consistent
  have run := unify_runs hc ha hb
  rw [hrun] at run
  have hready : Ready r [a] [b] := .pair hc ha hb
  have hkept := run.preserves hready
  -- a success makes the operands and the result identical
  have hsound : ∀ t, out = .ok t →
      r'.identical a b = true ∧ r'.identical t a = true ∧ r'.identical t b = true := by
    rintro t rfl
    obtain ⟨hab, hta, htb⟩ := run.sound hready rfl
    simp only [List.forall₂_cons, List.forall₂_nil_left_iff, and_true] at hab hta htb
    exact ⟨hab, hta, htb⟩
  refine ⟨hsound, fun hna hnb hnr => ?_⟩
  have hclosed := closed_sound hnr
  have hNa : ∀ x ∈ [a], Sound x := List.forall_mem_singleton.mpr hna
  have hNb : ∀ x ∈ [b], Sound x := List.forall_mem_singleton.mpr hnb
  -- a solution keeps the run from failing and solves what it leaves
  have hcomplete : ∀ {σ}, Respects σ r → a.under σ = b.under σ → (∃ t, out = .ok t) ∧
    Respects σ r' := by
    intro σ hs heq
    obtain ⟨⟨us, hus⟩, hs'⟩ :=
      run.complete hready (respects_iff_values.mp hs) (.cons ⟨_, heq, rfl⟩ .nil)
    obtain ⟨u, hu, _⟩ := map_singleton_eq_ok hus
    exact ⟨⟨u, hu⟩, respects_iff_values.mpr hs'⟩
  refine ⟨⟨?_, ?_⟩, ?_⟩
  · rintro ⟨t, hout⟩
    have hclosed' := (run.bindsOnly hready hclosed hNa hNb).closed
    exact ⟨_, hkept.consistent.respects_applied.of_extends hkept.extends_,
      hkept.consistent.under_applied_eq hclosed' (hkept.extends_.holds ha)
        (hkept.extends_.holds hb) hna hnb (hsound t hout).1⟩
  · rintro ⟨σ, hs, heq⟩
    exact (hcomplete hs heq).1
  · intro σ hs heq
    have hs' := (hcomplete hs heq).2
    exact ⟨hs', fun t ht => hs'.under_applied hkept.consistent ht⟩

/-- The tuples `(a, [b])` and `(&'l T, [int])`: unification succeeds, so there is a solution. -/
theorem unify_most_general_sample :
    ((unify Sample.left Sample.right).run.run Sample.registry).1.isOk = true ∧
      ∃ σ, Respects σ Sample.registry ∧ Sample.left.under σ = Sample.right.under σ := by
  have hok : ((unify Sample.left Sample.right).run.run Sample.registry).1.isOk = true := by
    decide +kernel
  refine ⟨hok, ?_⟩
  have hunbound : ∀ v t, Sample.registry.binding? v = some t → t.broken = false := by
    have hempty : Sample.registry.bindings = [] := by decide +kernel
    intro v t hb
    rw [binding?, hempty] at hb
    cases hb
  obtain ⟨_, hgeneral⟩ := unify_most_general Sample.reachable Sample.holds_left Sample.holds_right
    Prod.mk.eta.symm
  obtain ⟨hiff, _⟩ := hgeneral (by decide +kernel) (by decide +kernel) hunbound
  refine hiff.mp ?_
  cases hout : ((unify Sample.left Sample.right).run.run Sample.registry).1 with
  | ok t => exact ⟨t, rfl⟩
  | error e =>
    rw [hout] at hok
    cases hok

end Registry

end UnitCheck
