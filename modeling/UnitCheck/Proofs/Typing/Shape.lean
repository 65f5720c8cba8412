import UnitCheck.Typing.Ty

/-!
# Shapes of types

A type is a label, a lifetime and a list of parts. Every walk over types in the registry
(registration, resolution, the search for a variable, identity, unification) treats the five
compound kinds alike: it compares or copies the label and goes on with the parts. The lemmas here
say so once, so that what follows argues about `parts` and `label` and does not split over the kinds
again.

* `parts`, `label`, `lifetime` — the three components; `eq_of_shape` puts a type together again.
* `rebuild` — the same label over other parts; `mapVars_eq_rebuild` says that replacing variables
  is of that form.
* `induction_on_parts` — the induction over a type that all later proofs use.
* `Mentions` — the variables of a type.
-/

namespace UnitCheck

open List

namespace Ty

variable {t u : Ty} {us : List Ty} {f : TypeVar → Ty} {l : Option String} {v w : TypeVar}

/-! ## Components -/

/-- The types that a type is directly made of, in the order in which they are registered. -/
def parts : Ty → List Ty
  | array elem _ => [elem]
  | tuple elems => elems
  | func params result => params ++ [result]
  | ref inner _ _ => [inner]
  | named _ args => args
  | basic _ | var _ => []

/-- What a type is, apart from its parts and from lifetimes. -/
inductive Label where
  | basic (b : Basic)
  | array (length : Option Int)
  | tuple (count : Nat)
  | func (count : Nat)
  | ref (mutable : Bool)
  | named (name : String) (count : Nat)
  | var (v : TypeVar)
  deriving Repr, DecidableEq

def label : Ty → Label
  | basic b => .basic b
  | array _ n => .array n
  | tuple elems => .tuple elems.length
  | func params _ => .func params.length
  | ref _ m _ => .ref m
  | named name args => .named name args.length
  | var v => .var v

/-- The lifetime of a reference. -/
def lifetime : Ty → Option String
  | ref _ _ l => l
  | _ => none

/-- A type with the label of `t` and other parts. -/
def rebuild (t : Ty) (lifetime : Option String) (us : List Ty) : Ty :=
  match t with
  | array elem n => array (us.headD elem) n
  | tuple _ => tuple us
  | func _ result => func us.dropLast (us.getLast?.getD result)
  | ref inner m _ => ref (us.headD inner) m lifetime
  | named name _ => named name us
  | basic b => basic b
  | var v => var v

/-- Types with one label have the same number of parts. -/
theorem length_parts_of_label {a b : Ty} (h : a.label = b.label) :
    a.parts.length = b.parts.length := by
  cases a <;> cases b <;> simp_all [label, parts]

theorem eq_of_shape {a b : Ty} (hl : a.label = b.label) (ht : a.lifetime = b.lifetime)
    (hp : a.parts = b.parts) : a = b := by
  cases a <;> cases b <;> simp_all [label, lifetime, parts]

theorem eq_var_of_label (h : t.label = .var v) : t = var v := by
  cases t <;> simp_all [label]

/-- Types of one label are one variable, or neither is a variable. -/
theorem var_or_not_var_of_label (h : t.label = u.label) : t = u ∨ (∀ v, t ≠ var v) ∧
      ∀ v, u ≠ var v := by
  cases t with
  | var v => exact .inl (eq_var_of_label h.symm).symm
  | _ => exact .inr ⟨nofun, by rintro v rfl; cases h⟩

theorem eq_basic_of_label {b : Basic} (h : t.label = .basic b) : t = basic b := by
  cases t <;> simp_all [label]

private theorem dropLast_append_getLast (h : us ≠ []) (d : Ty) :
    us.dropLast ++ [us.getLast?.getD d] = us := by
  rw [getLast?_eq_some_getLast h, Option.getD_some, dropLast_concat_getLast h]

theorem parts_rebuild (h : us.length = t.parts.length) : (t.rebuild l us).parts = us := by
  cases t with
  | func params result =>
    have hne : us ≠ [] := by
      rintro rfl
      simp [parts] at h
    exact dropLast_append_getLast hne result
  | array elem n =>
    obtain ⟨u, rfl⟩ := length_eq_one_iff.mp h
    rfl
  | ref inner m k =>
    obtain ⟨u, rfl⟩ := length_eq_one_iff.mp h
    rfl
  | tuple elems => rfl
  | named name args => rfl
  | basic b => exact (length_eq_zero_iff.mp h).symm
  | var v => exact (length_eq_zero_iff.mp h).symm

theorem label_rebuild (h : us.length = t.parts.length) : (t.rebuild l us).label = t.label := by
  cases t <;> simp_all [rebuild, label, parts]

theorem lifetime_rebuild_self (t : Ty) (us : List Ty) :
    (t.rebuild t.lifetime us).lifetime = t.lifetime := by
  cases t <;> rfl

theorem lifetime_rebuild_none (t : Ty) (us : List Ty) : (t.rebuild none us).lifetime = none := by
  cases t <;> rfl

theorem rebuild_congr {a b : Ty} (h : a.label = b.label)
    (hl : us.length = a.parts.length) : a.rebuild l us = b.rebuild l us := by
  have hl' : us.length = b.parts.length := hl.trans (length_parts_of_label h)
  refine eq_of_shape ?_ ?_ ?_
  · rw [label_rebuild hl, label_rebuild hl', h]
  · cases a <;> cases b <;> simp_all [label, rebuild, lifetime]
  · rw [parts_rebuild hl, parts_rebuild hl']

/-! ## Induction over parts -/

theorem sizeAll_append (as bs : List Ty) : sizeAll (as ++ bs) = sizeAll as + sizeAll bs := by
  induction as with
  | nil => simp [sizeAll]
  | cons a as ih => simp [sizeAll, ih, Nat.add_assoc]

theorem size_eq_parts (t : Ty) : t.size = sizeAll t.parts + 1 := by
  cases t <;> simp [size, parts, sizeAll, sizeAll_append]

theorem size_le_sizeAll {ts : List Ty} (h : t ∈ ts) : t.size ≤ sizeAll ts := by
  induction ts with
  | nil => simp at h
  | cons u us ih =>
    rw [sizeAll]
    rcases mem_cons.mp h with rfl | h
    · omega
    · have := ih h
      omega

theorem size_lt_of_mem_parts (h : u ∈ t.parts) : u.size < t.size := by
  have := size_le_sizeAll h
  rw [size_eq_parts t]
  omega

/-- **Induction over the parts of a type.** What holds of variables, and of any other type whenever
it holds of its parts, holds of every type. -/
theorem induction_on_parts {P : Ty → Prop} (var : ∀ v, P (.var v))
    (node : ∀ t, (∀ v, t ≠ .var v) → (∀ u ∈ t.parts, P u) → P t) (t : Ty) : P t := by
  induction hn : t.size using Nat.strongRecOn generalizing t with
  | ind n ih =>
    -- by the size of the type, since the parts of a tuple or of arguments stand in lists
    by_cases hv : ∃ v, t = .var v
    · obtain ⟨v, rfl⟩ := hv
      exact var v
    · refine node t (fun v hw => hv ⟨v, hw⟩) fun u hu => ?_
      have hlt : u.size < n := hn ▸ size_lt_of_mem_parts hu
      exact ih u.size hlt u rfl

/-! ## Variables of a type -/

/-- Whether a variable stands somewhere in a type, bindings aside. -/
def Mentions (t : Ty) (v : TypeVar) : Prop := t.anyVar (· == v) = true

theorem anyVarAll_eq_any (p : TypeVar → Bool) (ts : List Ty) :
    anyVarAll p ts = ts.any (anyVar p) := by
  induction ts with
  | nil => rfl
  | cons t ts ih => rw [anyVarAll, ih, any_cons]

@[simp] theorem anyVar_var (p : TypeVar → Bool) (v : TypeVar) : (var v).anyVar p = p v := by
  rw [anyVar]

/-- Off variables, the search for a variable is the search in the parts. -/
theorem anyVar_eq_parts (p : TypeVar → Bool) (h : ∀ v, t ≠ var v) :
    t.anyVar p = t.parts.any (anyVar p) := by
  cases t with
  | var v => exact absurd rfl (h v)
  | _ => simp [anyVar, parts, anyVarAll_eq_any]

@[simp] theorem mentions_var : (var w).Mentions v ↔ w = v := by
  simp [Mentions]

theorem mentions_iff_parts (h : ∀ v, t ≠ var v) : t.Mentions w ↔ ∃ u ∈ t.parts, u.Mentions w := by
  rw [Mentions, anyVar_eq_parts _ h, List.any_eq_true]
  rfl

theorem Mentions.of_part (hu : u ∈ t.parts) (h : u.Mentions v) : t.Mentions v := by
  have hnv : ∀ w, t ≠ var w := by
    rintro w rfl
    simp [parts] at hu
  exact (mentions_iff_parts hnv).mpr ⟨u, hu, h⟩

theorem anyVar_iff {p : TypeVar → Bool} : t.anyVar p = true ↔ ∃ v, t.Mentions v ∧ p v = true := by
  induction t using induction_on_parts with
  | var w => simp
  | node t hnv ih =>
    rw [anyVar_eq_parts p hnv, List.any_eq_true]
    constructor
    · rintro ⟨u, hu, hp⟩
      obtain ⟨v, hm, hpv⟩ := (ih u hu).mp hp
      exact ⟨v, hm.of_part hu, hpv⟩
    · rintro ⟨v, hm, hpv⟩
      obtain ⟨u, hu, hmu⟩ := (mentions_iff_parts hnv).mp hm
      exact ⟨u, hu, (ih u hu).mpr ⟨v, hmu, hpv⟩⟩

theorem anyVar_congr {p q : TypeVar → Bool} (h : ∀ v, t.Mentions v → p v = q v) :
    t.anyVar p = t.anyVar q := by
  rw [Bool.eq_iff_iff, anyVar_iff, anyVar_iff]
  constructor
  · rintro ⟨v, hm, hp⟩
    exact ⟨v, hm, h v hm ▸ hp⟩
  · rintro ⟨v, hm, hq⟩
    exact ⟨v, hm, (h v hm).symm ▸ hq⟩

/-- All variables of a type have a property. -/
def AllVars (S : TypeVar → Prop) (t : Ty) : Prop := ∀ v, t.Mentions v → S v

theorem AllVars.part {S : TypeVar → Prop} (h : t.AllVars S) (hu : u ∈ t.parts) : u.AllVars S :=
  fun v hm => h v (hm.of_part hu)

/-! ## Replacing variables -/

theorem mapVarsAll_eq_map (f : TypeVar → Ty) (ts : List Ty) :
    mapVarsAll f ts = ts.map (mapVars f) := by
  induction ts with
  | nil => rfl
  | cons t ts ih => rw [mapVarsAll, ih, map_cons]

@[simp] theorem mapVars_var (f : TypeVar → Ty) (v : TypeVar) : (var v).mapVars f = f v := by
  rw [mapVars]

/-- Off variables, replacing variables keeps the label and works on the parts. -/
theorem mapVars_eq_rebuild (f : TypeVar → Ty) (h : ∀ v, t ≠ var v) :
    t.mapVars f = t.rebuild t.lifetime (t.parts.map (mapVars f)) := by
  cases t with
  | var v => exact absurd rfl (h v)
  | _ => simp [mapVars, parts, rebuild, lifetime, mapVarsAll_eq_map]

theorem parts_mapVars (f : TypeVar → Ty) (h : ∀ v, t ≠ var v) :
    (t.mapVars f).parts = t.parts.map (mapVars f) := by
  rw [mapVars_eq_rebuild f h, parts_rebuild (by rw [length_map])]

theorem label_mapVars (f : TypeVar → Ty) (h : ∀ v, t ≠ var v) : (t.mapVars f).label = t.label := by
  rw [mapVars_eq_rebuild f h, label_rebuild (by rw [length_map])]

theorem mapVars_ne_var (h : ∀ v, t ≠ var v) (v : TypeVar) : t.mapVars f ≠ var v := by
  intro hv
  have hl := label_mapVars f h
  rw [hv] at hl
  exact h v (eq_var_of_label hl.symm)

theorem mapVars_congr {g : TypeVar → Ty} (h : ∀ v, t.Mentions v → f v = g v) :
    t.mapVars f = t.mapVars g := by
  induction t using induction_on_parts with
  | var w => simpa using h w (by simp)
  | node t hnv ih =>
    have hparts : t.parts.map (mapVars f) = t.parts.map (mapVars g) :=
      map_congr_left fun u hu => ih u hu fun v hm => h v (hm.of_part hu)
    rw [mapVars_eq_rebuild f hnv, mapVars_eq_rebuild g hnv, hparts]

theorem mapVars_eq_self (h : ∀ v, t.Mentions v → f v = var v) : t.mapVars f = t := by
  induction t using induction_on_parts with
  | var w => simpa using h w (by simp)
  | node t hnv ih =>
    have hparts : t.parts.map (mapVars f) = t.parts := by
      rw [map_congr_left fun u hu => ih u hu fun v hm => h v (hm.of_part hu), List.map_id']
    apply eq_of_shape (label_mapVars f hnv)
    · rw [mapVars_eq_rebuild f hnv, lifetime_rebuild_self]
    · rw [parts_mapVars f hnv, hparts]

theorem mentions_mapVars : (t.mapVars f).Mentions w ↔ ∃ v, t.Mentions v ∧ (f v).Mentions w := by
  induction t using induction_on_parts with
  | var x => simp
  | node t hnv ih =>
    rw [mentions_iff_parts (mapVars_ne_var hnv), parts_mapVars f hnv]
    constructor
    · rintro ⟨u', hu', hm⟩
      obtain ⟨u, hu, rfl⟩ := List.mem_map.mp hu'
      obtain ⟨v, hmv, hfv⟩ := (ih u hu).mp hm
      exact ⟨v, hmv.of_part hu, hfv⟩
    · rintro ⟨v, hmv, hfv⟩
      obtain ⟨u, hu, hmu⟩ := (mentions_iff_parts hnv).mp hmv
      exact ⟨u.mapVars f, List.mem_map_of_mem hu, (ih u hu).mpr ⟨v, hmu, hfv⟩⟩

end Ty

end UnitCheck
