import Mathlib.Data.Finset.Card
import Mathlib.Data.Finset.Range
import Mathlib.Logic.Relation
import UnitCheck.Proofs.Typing.Interning

/-!
# Following bindings

`Child` is one step of a walk: from a type to one of its parts, or from a variable to what it stands
for. A registry is `Consistent` when its types are interned, only registered variables that are not
rigid are bound, to registered types, and no walk comes back to where it began (`Acyclic`).

The walks of the library carry a bound on their steps. The bound is never what ends them:

* `above` counts the registered types over a given one. The count grows with every step down
  (`card_above_lt`), so a walk over registered types has fewer steps than there are types.
* `walk_induction` — the induction that this gives: down the parts, through bindings.
* `head_bound`, `applied_bound`, `anyUnbound_bound` — a bound variable is passed over with no step
  of the bound used up. With the equations for parts these are the walks without any bound.
* `acyclic_assign` — binding a variable to a type from which it cannot be reached makes no cycle.
-/

namespace UnitCheck

open Ty Relation List Option TransGen

namespace Registry

variable {b t u : Ty} {r r' : Registry} {i n : Nat} {v w : TypeVar} {S : Finset Nat}
  {p : TypeVar → Bool}

/-! ## Steps of a walk -/

/-- One step down: to a part of a type, or to what a variable stands for. -/
inductive Child (r : Registry) : Ty → Ty → Prop where
  | part {t u : Ty} (h : u ∈ t.parts) : Child r t u
  | bound {v : TypeVar} {u : Ty} (h : r.binding? v = some u) : Child r (.var v) u

/-- No walk down comes back to where it began. -/
def Acyclic (r : Registry) : Prop := ∀ t, ¬ TransGen r.Child t t

/-- What every operation keeps: the types are interned, only registered variables that are not rigid
are bound, and only to registered types, and no type is inside itself. -/
structure Consistent (r : Registry) : Prop extends Interned r where
  key_held : ∀ {id : Nat} {t : Ty}, (id, t) ∈ r.bindings →
    ∃ v : TypeVar, v.id = id ∧ r.Holds (.var v) ∧ v.rigid = false
  bound_held : ∀ {id : Nat} {t : Ty}, (id, t) ∈ r.bindings → r.Holds t
  acyclic : r.Acyclic

theorem mem_of_lookup {α β : Type} [BEq α] [LawfulBEq α] {a : α} {b : β} {l : List (α × β)}
    (h : l.lookup a = some b) : (a, b) ∈ l := by
  obtain ⟨before, behind, rfl, -⟩ := lookup_eq_some_iff.mp h
  exact mem_append_right before mem_cons_self

theorem Consistent.holds_bound (h : r.Consistent) (hb : r.binding? v = some t) : r.Holds t :=
  h.bound_held (mem_of_lookup hb)

/-- A rigid variable is never bound. -/
theorem Consistent.binding?_of_rigid (h : r.Consistent)
    (hv : r.Holds (.var v)) (hr : v.rigid = true) :
    r.binding? v = none := by
  cases hb : r.binding? v with
  | none => rfl
  | some t =>
    obtain ⟨w, hid, hw, hflex⟩ := h.key_held (mem_of_lookup hb)
    obtain rfl := h.var_ext hw hv hid
    rw [hr] at hflex
    cases hflex

theorem Consistent.holds_child (h : r.Consistent) (ht : r.Holds t) (hc : r.Child t u) :
    r.Holds u := by
  cases hc with
  | part hu => exact h.holds_part ht hu
  | bound hb => exact h.holds_bound hb

theorem Consistent.holds_reach (h : r.Consistent) (ht : r.Holds t) (hr : ReflTransGen r.Child t u) :
    r.Holds u := by
  induction hr with
  | refl => exact ht
  | tail _ hc ih => exact h.holds_child ih hc

theorem mentions_reach (hm : t.Mentions v) : ReflTransGen r.Child t (.var v) := by
  induction t using induction_on_parts with
  | var w => rw [mentions_var.mp hm]
  | node t hnv ih =>
    obtain ⟨u, hu, hmu⟩ := (mentions_iff_parts hnv).mp hm
    exact ReflTransGen.head (.part hu) (ih u hu hmu)

/-! ## Extension -/

/-- `r'` came out of `r` by registrations and by binding variables that were not bound. -/
structure Extends (r r' : Registry) : Prop where
  types : r.types <+: r'.types
  binding : ∀ {v : TypeVar} {t : Ty}, r.binding? v = some t → r'.binding? v = some t

theorem Extends.refl (r : Registry) : r.Extends r := ⟨prefix_refl _, id⟩

theorem Extends.trans {r'' : Registry} (h : r.Extends r') (h' : r'.Extends r'') : r.Extends r'' :=
  ⟨h.types.trans h'.types, fun hb => h'.binding (h.binding hb)⟩

theorem Grows.binding? (h : r.Grows r') (v : TypeVar) : r'.binding? v = r.binding? v := by
  rw [Registry.binding?, h.bindings, ← Registry.binding?]

theorem Grows.extends (h : r.Grows r') : r.Extends r' := ⟨h.types, fun hb => by rw [h.binding?, hb]⟩

theorem Extends.holds (h : r.Extends r') (ht : r.Holds t) : r'.Holds t := h.types.subset ht

theorem Extends.get? (h : r.Extends r') (ht : r.types[i]? = some t) : r'.types[i]? = some t := by
  obtain ⟨ts, hts⟩ := h.types
  obtain ⟨hlt, _⟩ := List.getElem?_eq_some_iff.mp ht
  rw [← hts, getElem?_append_left hlt, ht]

theorem Extends.child (h : r.Extends r') (hc : r.Child t u) : r'.Child t u := by
  cases hc with
  | part hu => exact .part hu
  | bound hb => exact .bound (h.binding hb)

theorem Grows.child_iff (h : r.Grows r') : r'.Child t u ↔ r.Child t u := by
  constructor
  · intro hc
    cases hc with
    | part hu => exact .part hu
    | bound hb => exact .bound (by rwa [h.binding?] at hb)
  · exact h.extends.child

/-- Registrations keep a registry consistent if they keep its types interned. -/
theorem Consistent.grows (h : r.Consistent) (hg : r.Grows r') (hi : r'.Interned) :
    r'.Consistent := by
  refine ⟨hi, ?_, ?_, ?_⟩
  · intro id t hm
    rw [hg.bindings] at hm
    obtain ⟨v, hid, hv, hflex⟩ := h.key_held hm
    exact ⟨v, hid, hg.holds hv, hflex⟩
  · intro id t hm
    rw [hg.bindings] at hm
    exact hg.holds (h.bound_held hm)
  · intro t hcycle
    exact h.acyclic t (mono (fun _ _ hc => hg.child_iff.mp hc) t t hcycle)

/-! ## Counting what is above

Of a set of ids, `above` keeps those whose types lie over a given type. Going down adds the type
that is left, and an acyclic registry never had it there before. Binding more variables adds to the
set and takes nothing away, which is why unification, where the bindings change on the way, is
measured by what is above and not by what is below. -/

open Classical in
noncomputable def above (r : Registry) (S : Finset Nat) (t : Ty) : Finset Nat :=
  S.filter fun i => ∃ c, r.types[i]? = some c ∧ TransGen r.Child c t

theorem mem_above : i ∈ r.above S t ↔ i ∈ S ∧ ∃ c, r.types[i]? = some c ∧ TransGen r.Child c t := by
  simp only [above, Finset.mem_filter]

theorem above_subset (r : Registry) (S : Finset Nat) (t : Ty) : r.above S t ⊆ S :=
  fun _ hi => (mem_above.mp hi).1

theorem above_subset_of_reach (h : ReflTransGen r.Child t u) : r.above S t ⊆ r.above S u := by
  intro i hi
  obtain ⟨hS, c, hc, hct⟩ := mem_above.mp hi
  exact mem_above.mpr ⟨hS, c, hc, hct.trans_left h⟩

theorem Extends.above_subset (h : r.Extends r') (S : Finset Nat)
    (t : Ty) : r.above S t ⊆ r'.above S t := by
  intro i hi
  obtain ⟨hS, c, hc, hct⟩ := mem_above.mp hi
  exact mem_above.mpr ⟨hS, c, h.get? hc, mono (fun _ _ => h.child) c t hct⟩

/-- More of the counted types are over a type than over one that lies over it. -/
theorem Acyclic.card_above_lt (h : r.Acyclic) (hi : i ∈ S) (ht : r.types[i]? = some t)
    (hu : TransGen r.Child t u) : (r.above S t).card < (r.above S u).card := by
  have hnot : i ∉ r.above S t := by
    intro hmem
    obtain ⟨_, c, hc, hct⟩ := mem_above.mp hmem
    obtain rfl : t = c := mem_unique ht hc
    exact h t hct
  refine Finset.card_lt_card ⟨above_subset_of_reach hu.to_reflTransGen, fun hsub => hnot ?_⟩
  exact hsub (mem_above.mpr ⟨hi, t, ht, hu⟩)

/-- A counted type is not over itself. -/
theorem Acyclic.card_above_lt_card (h : r.Acyclic) (hi : i ∈ S)
    (ht : r.types[i]? = some t) : (r.above S t).card < S.card := by
  refine Finset.card_lt_card ⟨above_subset r S t, fun hsub => ?_⟩
  obtain ⟨_, c, hc, hct⟩ := mem_above.mp (hsub hi)
  obtain rfl : t = c := mem_unique ht hc
  exact h t hct

/-- **Induction down a consistent registry.** What holds of a registered type whenever it holds of
all that lies one step below it holds of every registered type. -/
theorem Consistent.child_induction (h : r.Consistent) {P : Ty → Prop}
    (step : ∀ t, r.Holds t → (∀ u, r.Child t u → P u) → P t) (ht : r.Holds t) : P t := by
  -- the number of types that are not above `t` gets smaller on the way down
  induction hn : r.size - (r.above (Finset.range r.size) t).card using Nat.strongRecOn
    generalizing t with
  | ind n ih =>
    refine step t ht fun u hu => ?_
    obtain ⟨i, hi⟩ := mem_iff_getElem?.mp ht
    obtain ⟨hlt, _⟩ := List.getElem?_eq_some_iff.mp hi
    rw [length_types] at hlt
    have hmore := h.acyclic.card_above_lt (Finset.mem_range.mpr hlt) hi (single hu)
    have hle := Finset.card_le_card (above_subset r (Finset.range r.size) u)
    rw [Finset.card_range] at hle
    refine ih _ ?_ (h.holds_child ht hu) rfl
    omega

/-- **Induction along the walks.** A registered type is a variable that is not bound, one that is,
or not a variable; in the second case the induction goes through the binding, in the third to the
parts. -/
theorem Consistent.walk_induction (h : r.Consistent) {P : ∀ t : Ty, r.Holds t → Prop}
    (free : ∀ (v : TypeVar) (hv : r.Holds (.var v)), r.binding? v = none → P (.var v) hv)
    (bound : ∀ (v : TypeVar) (b : Ty) (hv : r.Holds (.var v)) (hb : r.binding? v = some b),
      P b (h.holds_bound hb) → P (.var v) hv)
        (node : ∀ (t : Ty) (ht : r.Holds t), (∀ v, t ≠ .var v) →
      (∀ (u : Ty) (hu : u ∈ t.parts), P u (h.holds_part ht hu)) → P t ht)
    (t : Ty) (ht : r.Holds t) : P t ht := by
  refine h.child_induction (P := fun t => ∀ ht : r.Holds t, P t ht) ?_ ht ht
  intro t _ ih ht
  by_cases hvar : ∃ v, t = .var v
  · obtain ⟨v, rfl⟩ := hvar
    cases hb : r.binding? v with
    | none => exact free v ht hb
    | some b => exact bound v b ht hb (ih b (.bound hb) _)
  · exact node t ht (fun v hv => hvar ⟨v, hv⟩) fun u hu => ih u (.part hu) _

/-! ## The bound on following bindings

`Nests n t`: below `t`, bindings lie inside bindings at most `n` deep. In a consistent registry this
holds with the number of bindings, so that one more than that number is enough for every walk. -/

def Nests (r : Registry) : Nat → Ty → Prop
  | 0, t => ∀ v, t.Mentions v → r.binding? v = none
  | n + 1, t => ∀ v b, t.Mentions v → r.binding? v = some b → Nests r n b

/-- The ids of the bound variables. -/
def boundIds (r : Registry) : Finset Nat := (r.bindings.map (·.1)).toFinset

theorem card_boundIds_le (r : Registry) : r.boundIds.card ≤ r.bindings.length := by
  have hle := toFinset_card_le (r.bindings.map (·.1))
  rwa [length_map] at hle

/-- A registered variable that is bound stands at a bound id. -/
theorem Consistent.types_of_bound (h : r.Consistent)
    (hv : r.Holds (.var v)) (hb : r.binding? v = some b) :
    v.id ∈ r.boundIds ∧ r.types[v.id]? = some (.var v) := by
  refine ⟨?_, ?_⟩
  · rw [boundIds, List.mem_toFinset]
    exact List.mem_map_of_mem (mem_of_lookup hb)
  · obtain ⟨i, hi⟩ := mem_iff_getElem?.mp hv
    rwa [h.var_id hi]

/-- Steps that are left for the bindings above a type are enough to get to its leaves. -/
theorem Consistent.nests_of_above (h : r.Consistent) (ht : r.Holds t)
    (hn : r.boundIds.card ≤ n + (r.above r.boundIds t).card) : r.Nests n t := by
  induction n generalizing t with
  | zero =>
    intro v hm
    cases hb : r.binding? v with
    | none => rfl
    | some b =>
      -- all bound variables would be above `t`, this one among them, and so above itself
      have hreach : ReflTransGen r.Child t (.var v) := mentions_reach hm
      obtain ⟨hid, hplace⟩ := h.types_of_bound (h.holds_reach ht hreach) hb
      have hlt := h.acyclic.card_above_lt_card hid hplace
      have hle := Finset.card_le_card (above_subset_of_reach (S := r.boundIds) hreach)
      omega
  | succ n ih =>
    intro v b hm hb
    have hreach : ReflTransGen r.Child t (.var v) := mentions_reach hm
    obtain ⟨hid, hplace⟩ := h.types_of_bound (h.holds_reach ht hreach) hb
    have hlt := h.acyclic.card_above_lt hid hplace (single (.bound hb))
    have hle := Finset.card_le_card (above_subset_of_reach (S := r.boundIds) hreach)
    exact ih (h.holds_bound hb) (by omega)

theorem Consistent.nests (h : r.Consistent) (ht : r.Holds t) : r.Nests r.bindings.length t := by
  have hle := r.card_boundIds_le
  exact h.nests_of_above ht (by omega)

/-! ## The walks without a bound -/

/-- Once there are enough steps, one more changes nothing. -/
theorem follow_stable (h : r.Nests n t) : r.follow n t = r.follow (n + 1) t := by
  induction n generalizing t with
  | zero =>
    cases t with
    | var v =>
      have hfree : r.binding? v = none := h v (mentions_var.mpr rfl)
      rw [follow, follow, hfree]
    | _ => rfl
  | succ n ih =>
    cases t with
    | var v =>
      cases hb : r.binding? v with
      | none => rw [follow, follow, hb]
      | some b =>
        have hstep : ∀ k, r.follow (k + 1) (.var v) = r.follow k b := by
          intro k
          rw [follow, hb]
        rw [hstep, hstep]
        exact ih (h v b (mentions_var.mpr rfl) hb)
    | _ => rfl

theorem expand_stable (h : r.Nests n t) : r.expand n t = r.expand (n + 1) t := by
  induction n generalizing t with
  | zero =>
    rw [expand, expand]
    refine (mapVars_eq_self fun v hm => ?_).symm
    rw [h v hm]
  | succ n ih =>
    refine mapVars_congr fun v hm => ?_
    cases hb : r.binding? v with
    | none => rfl
    | some b => exact ih (h v b hm hb)

theorem anyUnbound_stable (h : r.Nests n t) :
    r.anyUnbound p (n + 1) t = r.anyUnbound p (n + 2) t := by
  induction n generalizing t with
  | zero =>
    refine anyVar_congr fun v hm => ?_
    rw [h v hm]
  | succ n ih =>
    refine anyVar_congr fun v hm => ?_
    cases hb : r.binding? v with
    | none => rfl
    | some b => exact ih (h v b hm hb)

theorem head_of_not_var (r : Registry) (h : ∀ v, t ≠ .var v) : r.head t = t := by
  cases t with
  | var v => exact absurd rfl (h v)
  | _ => rfl

theorem head_free (h : r.binding? v = none) : r.head (.var v) = .var v := by
  rw [head, reach, follow, h]

theorem Consistent.head_bound (h : r.Consistent) (hb : r.binding? v = some b) :
    r.head (.var v) = r.head b := by
  have hstep : r.head (.var v) = r.follow r.bindings.length b := by
    rw [head, reach, follow, hb]
  rw [hstep, follow_stable (h.nests (h.holds_bound hb))]
  rfl

/-- Off variables, a type is applied part by part. -/
theorem applied_of_not_var (r : Registry) (h : ∀ v, t ≠ .var v) :
    r.applied t = t.rebuild t.lifetime (t.parts.map r.applied) :=
  mapVars_eq_rebuild _ h

theorem parts_applied (r : Registry) (h : ∀ v, t ≠ .var v) :
    (r.applied t).parts = t.parts.map r.applied :=
  parts_mapVars _ h

theorem applied_ne_var (r : Registry) (h : ∀ v, t ≠ .var v) (v : TypeVar) : r.applied t ≠ .var v :=
  mapVars_ne_var h v

theorem applied_free (h : r.binding? v = none) : r.applied (.var v) = .var v := by
  rw [applied, reach, expand, mapVars_var, h]

theorem Consistent.applied_bound (h : r.Consistent) (hb : r.binding? v = some b) :
    r.applied (.var v) = r.applied b := by
  have hstep : r.applied (.var v) = r.expand r.bindings.length b := by
    rw [applied, reach, expand, mapVars_var, hb]
  rw [hstep, expand_stable (h.nests (h.holds_bound hb))]
  rfl

theorem anyUnbound_of_not_var (r : Registry) (p : TypeVar → Bool) (h : ∀ v, t ≠ .var v) :
    r.anyUnbound p r.reach t = t.parts.any (r.anyUnbound p r.reach) :=
  anyVar_eq_parts _ h

theorem anyUnbound_free (h : r.binding? v = none) : r.anyUnbound p r.reach (.var v) = p v := by
  rw [reach, anyUnbound, anyVar_var, h]

/-- A bound variable has the free variables of what it is bound to. -/
theorem Consistent.anyUnbound_bound (h : r.Consistent) (hv : r.Holds (.var v))
    (hb : r.binding? v = some b) : r.anyUnbound p r.reach (.var v) = r.anyUnbound p r.reach b := by
  have hstep : r.anyUnbound p r.reach (.var v) = r.anyUnbound p r.bindings.length b := by
    rw [reach, anyUnbound, anyVar_var, hb]
  -- there is a binding, so the bound on the inner walk is not zero
  obtain ⟨n, hn⟩ : ∃ n, r.bindings.length = n + 1 :=
    Nat.exists_eq_succ_of_ne_zero fun hz => by
      have hmem := mem_of_lookup hb
      rw [length_eq_zero_iff.mp hz] at hmem
      cases hmem
  have hnests : r.Nests n b := by
    have hv' := h.nests hv
    rw [hn] at hv'
    exact hv' v b (mentions_var.mpr rfl) hb
  rw [hstep, reach, hn, anyUnbound_stable hnests]

/-! ## Heads -/

theorem Consistent.reach_head (h : r.Consistent) (ht : r.Holds t) :
    ReflTransGen r.Child t (r.head t) := by
  induction t, ht using h.walk_induction with
  | free v _ hb => rw [head_free hb]
  | bound v b _ hb ih =>
    rw [h.head_bound hb]
    exact ReflTransGen.head (.bound hb) ih
  | node t _ hnv _ => rw [head_of_not_var r hnv]

theorem Consistent.holds_head (h : r.Consistent) (ht : r.Holds t) : r.Holds (r.head t) :=
  h.holds_reach ht (h.reach_head ht)

theorem Consistent.head_unbound (h : r.Consistent) (ht : r.Holds t) (hv : r.head t = .var v) :
    r.binding? v = none := by
  induction t, ht using h.walk_induction with
  | free w _ hb =>
    rw [head_free hb] at hv
    rwa [← Ty.var.inj hv]
  | bound w b _ hb ih =>
    rw [h.head_bound hb] at hv
    exact ih hv
  | node t _ hnv _ =>
    rw [head_of_not_var r hnv] at hv
    exact absurd hv (hnv v)

/-- Heads can be taken later: what a head stands for after more variables were bound is what the
type itself stands for then. -/
theorem Consistent.head_head (h : r.Consistent) (h' : r'.Consistent) (he : r.Extends r')
    (ht : r.Holds t) :
    r'.head (r.head t) = r'.head t := by
  induction t, ht using h.walk_induction with
  | free v _ hb => rw [head_free hb]
  | bound v b _ hb ih => rw [h.head_bound hb, h'.head_bound (he.binding hb), ih]
  | node t _ hnv _ => rw [head_of_not_var r hnv]

/-! ## The search for a variable -/

/-- **The occurs check.** An unbound variable occurs in a type exactly when a walk down from the
type comes to it. -/
theorem Consistent.occurs_iff (h : r.Consistent) (hv : r.binding? v = none) (ht : r.Holds t) :
    r.occurs v t = true ↔ ReflTransGen r.Child t (.var v) := by
  -- by induction on the walk down from the type, which goes through bindings and parts
  induction t, ht using h.walk_induction with
  | free w _ hb =>
    rw [occurs, anyUnbound_free hb, beq_iff_eq]
    constructor
    · rintro rfl
      exact ReflTransGen.refl
    · intro hreach
      rcases ReflTransGen.cases_head hreach with heq | ⟨u, hu, _⟩
      · exact Ty.var.inj heq
      · -- nothing lies below a variable that is not bound
        cases hu with
        | part hp => simp [parts] at hp
        | bound hb' =>
          rw [hb] at hb'
          cases hb'
  | bound w b hw hb ih =>
    rw [occurs, h.anyUnbound_bound hw hb, ← occurs, ih]
    constructor
    · exact ReflTransGen.head (.bound hb)
    · intro hreach
      rcases ReflTransGen.cases_head hreach with heq | ⟨u, hu, hrest⟩
      · rw [Ty.var.inj heq, hv] at hb
        cases hb
      · cases hu with
        | part hp => simp [parts] at hp
        | bound hb' =>
          rw [hb, some_inj] at hb'
          rwa [hb']
  | node t _ hnv ih =>
    rw [occurs, anyUnbound_of_not_var r _ hnv, List.any_eq_true]
    constructor
    · rintro ⟨u, hu, hocc⟩
      exact ReflTransGen.head (.part hu) ((ih u hu).mp hocc)
    · intro hreach
      rcases ReflTransGen.cases_head hreach with heq | ⟨u, hu, hrest⟩
      · exact absurd heq (hnv v)
      · cases hu with
        | part hp => exact ⟨u, hp, (ih u hp).mpr hrest⟩
        | bound hb => exact absurd rfl (hnv _)

/-! ## Binding a variable -/

/-- The registry with one more binding. -/
def assign (r : Registry) (v : TypeVar) (t : Ty) : Registry :=
  { r with bindings := (v.id, t) :: r.bindings }

theorem assign_binding?_of_id_eq (h : w.id = v.id) : (r.assign v t).binding? w = some t := by
  show ((v.id, t) :: r.bindings).lookup w.id = some t
  rw [h, lookup_cons_self]

theorem assign_binding?_of_id_ne (h : w.id ≠ v.id) : (r.assign v t).binding? w = r.binding? w := by
  show ((v.id, t) :: r.bindings).lookup w.id = r.bindings.lookup w.id
  rw [lookup_cons, show (w.id == v.id) = false from beq_false_of_ne h]

theorem extends_assign (hv : r.binding? v = none) : r.Extends (r.assign v t) := by
  refine ⟨prefix_refl _, ?_⟩
  intro w b hb
  have hid : w.id ≠ v.id := by
    intro hid
    have hsame : r.binding? w = r.binding? v := by rw [binding?, hid, ← binding?]
    rw [hsame, hv] at hb
    cases hb
  rw [assign_binding?_of_id_ne hid, hb]

/-- A step after a binding is one from before, or it goes from the bound variable to its type. -/
theorem child_assign {x y : Ty} (h : (r.assign v t).Child x y) :
    r.Child x y ∨ (∃ w : TypeVar, x = .var w ∧ w.id = v.id ∧ y = t) := by
  cases h with
  | part hy => exact .inl (.part hy)
  | @bound w _ hb =>
    by_cases hid : w.id = v.id
    · rw [assign_binding?_of_id_eq hid, some_inj] at hb
      exact .inr ⟨w, rfl, hid, hb.symm⟩
    · rw [assign_binding?_of_id_ne hid] at hb
      exact .inl (.bound hb)

/-- **The occurs check suffices.** Binding a variable to a type from which no walk comes to it makes
no cycle. A cycle would have to use the new step; but from the type that it leads to, only old steps
can be made, and those have no cycle. -/
theorem Consistent.acyclic_assign (h : r.Consistent) (hv : r.Holds (.var v)) (ht : r.Holds t)
    (hocc : ¬ ReflTransGen r.Child t (.var v)) : (r.assign v t).Acyclic := by
  -- from what `t` reaches, every step is an old one
  have hold : ∀ {x y : Ty}, ReflTransGen r.Child t x → (r.assign v t).Child x y → r.Child x y := by
    intro x y hx hxy
    rcases child_assign hxy with hxy | ⟨w, rfl, hid, rfl⟩
    · exact hxy
    · have hw : r.Holds (.var w) := h.holds_reach ht hx
      rw [h.var_ext hw hv hid] at hx
      exact absurd hx hocc
  have hreach : ∀ {x y : Ty}, ReflTransGen r.Child t x → ReflTransGen (r.assign v t).Child x y →
      ReflTransGen r.Child x y := by
    intro x y hx hxy
    induction hxy with
    | refl => exact ReflTransGen.refl
    | tail _ hstep ih => exact ih.tail (hold (hx.trans ih) hstep)
  -- a walk is made of old steps, or it has come through `t`
  have hsplit : ∀ {x y : Ty}, TransGen (r.assign v t).Child x y →
      TransGen r.Child x y ∨ ReflTransGen (r.assign v t).Child t y := by
    intro x y hxy
    induction hxy with
    | single hstep =>
      rcases child_assign hstep with hstep | ⟨w, rfl, _, rfl⟩
      · exact .inl (single hstep)
      · exact .inr ReflTransGen.refl
    | tail _ hstep ih =>
      rcases child_assign hstep with hold' | ⟨w, rfl, _, rfl⟩
      · rcases ih with ih | ih
        · exact .inl (ih.tail hold')
        · exact .inr (ih.tail hstep)
      · exact .inr ReflTransGen.refl
  intro x hcycle
  rcases hsplit hcycle with hcycle' | hthrough
  · exact h.acyclic x hcycle'
  · have hx : ReflTransGen r.Child t x := hreach ReflTransGen.refl hthrough
    obtain ⟨y, hxy, hyx⟩ := head'_iff.mp hcycle
    have hxy' : r.Child x y := hold hx hxy
    exact h.acyclic x (head' hxy' (hreach (hx.tail hxy') hyx))

/-- A free variable may be bound to a type that it does not occur in. -/
theorem Consistent.assign (h : r.Consistent) (hv : r.Holds (.var v)) (hflex : v.rigid = false)
    (ht : r.Holds t) (hocc : ¬ ReflTransGen r.Child t (.var v)) : (r.assign v t).Consistent := by
  refine ⟨⟨h.nodup, h.var_id, h.parts_before, h.basic, h.not_empty⟩, ?_, ?_,
    h.acyclic_assign hv ht hocc⟩
  · intro id u hm
    rcases mem_cons.mp hm with heq | hm
    · obtain ⟨rfl, rfl⟩ := Prod.mk.inj heq
      exact ⟨v, rfl, hv, hflex⟩
    · exact h.key_held hm
  · intro id u hm
    rcases mem_cons.mp hm with heq | hm
    · obtain ⟨rfl, rfl⟩ := Prod.mk.inj heq
      exact ht
    · exact h.bound_held hm

/-! ## Registrations and bindings do not meet -/

theorem Grows.follow (h : r.Grows r') (n : Nat) (t : Ty) : r'.follow n t = r.follow n t := by
  induction n generalizing t with
  | zero => rfl
  | succ n ih =>
    cases t with
    | var v =>
      rw [Registry.follow, Registry.follow, h.binding?]
      cases r.binding? v with
      | none => rfl
      | some b => exact ih b
    | _ => rfl

theorem Grows.reach (h : r.Grows r') : r'.reach = r.reach := by
  rw [Registry.reach, h.bindings, ← Registry.reach]

theorem Grows.head (h : r.Grows r') (t : Ty) : r'.head t = r.head t := by
  rw [Registry.head, h.reach, h.follow, ← Registry.head]

theorem Grows.expand (h : r.Grows r') (n : Nat) (t : Ty) : r'.expand n t = r.expand n t := by
  induction n generalizing t with
  | zero => rfl
  | succ n ih =>
    refine mapVars_congr fun v _ => ?_
    rw [h.binding?]
    cases r.binding? v with
    | none => rfl
    | some b => exact ih b

theorem Grows.applied (h : r.Grows r') (t : Ty) : r'.applied t = r.applied t := by
  rw [Registry.applied, h.reach, h.expand, ← Registry.applied]

end Registry

end UnitCheck
