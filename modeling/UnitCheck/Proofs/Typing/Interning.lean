import UnitCheck.Proofs.Typing.Shape
import UnitCheck.Typing.Registry

/-!
# Interning

A registry seen as the list of its types. `Interned` is what every registration keeps: no type
stands twice, a variable stands at its own id, the parts of a type stand before it, and the empty
tuple does not stand at all (`unit` does). `register_run` says what a registration returns and what
it leaves: the type itself with its empty tuples made `unit`, held from then on, behind everything
that was held before. A type that is held already is returned as it is and nothing is added
(`register_run_of_holds`).

The state-changing lemmas are of one form: they name the pair that `run` gives. No later proof opens
`register` again.
-/

namespace UnitCheck

open List

variable {r r' : Registry} {t : Ty} {ts : List Ty}

/-! ## Empty tuples -/

namespace Ty

mutual

/-- The type with `unit` in place of every empty tuple. -/
def tidy : Ty → Ty
  | basic b => basic b
  | array elem n => array elem.tidy n
  | tuple [] => unit
  | tuple (t :: ts) => tuple (t.tidy :: tidyAll ts)
  | func params result => func (tidyAll params) result.tidy
  | ref inner m l => ref inner.tidy m l
  | named name args => named name (tidyAll args)
  | var v => var v

def tidyAll : List Ty → List Ty
  | [] => []
  | t :: ts => t.tidy :: tidyAll ts

end

theorem tidyAll_eq_map (ts : List Ty) : tidyAll ts = ts.map tidy := by
  induction ts with
  | nil => rfl
  | cons t ts ih => rw [tidyAll, ih, map_cons]

/-- What is put together from parts: neither a basic type nor a variable, nor the empty tuple, which
is another way to write `unit`. -/
def Compound (t : Ty) : Prop := (∀ b, t ≠ basic b) ∧ (∀ v, t ≠ var v) ∧ t ≠ tuple []

/-- A type is a variable, a basic type, the empty tuple or compound. -/
theorem compound_cases (t : Ty) : (∃ v, t = var v) ∨ (∃ b, t = basic b) ∨ t = tuple [] ∨
      t.Compound := by
  by_cases hv : ∃ v, t = var v
  · exact .inl hv
  by_cases hb : ∃ b, t = basic b
  · exact .inr (.inl hb)
  by_cases he : t = tuple []
  · exact .inr (.inr (.inl he))
  · exact .inr (.inr (.inr ⟨fun b h => hb ⟨b, h⟩, fun v h => hv ⟨v, h⟩, he⟩))

theorem Compound.tidy_eq (h : t.Compound) : t.tidy = t.rebuild t.lifetime (t.parts.map tidy) := by
  obtain ⟨hb, hv, he⟩ := h
  cases t with
  | basic b => exact absurd rfl (hb b)
  | var v => exact absurd rfl (hv v)
  | tuple elems =>
    cases elems with
    | nil => exact absurd rfl he
    | cons t ts => simp [tidy, rebuild, parts, tidyAll_eq_map]
  | _ => simp [tidy, rebuild, parts, lifetime, tidyAll_eq_map]

/-- A compound type with other parts is compound. -/
theorem Compound.rebuild (h : t.Compound) {l : Option String} {us : List Ty}
    (hl : us.length = t.parts.length) : (t.rebuild l us).Compound := by
  obtain ⟨hb, hv, he⟩ := h
  have hlab := label_rebuild (l := l) hl
  refine ⟨?_, ?_, ?_⟩
  · intro b hb'
    rw [hb'] at hlab
    exact hb b (eq_basic_of_label hlab.symm)
  · intro v hv'
    rw [hv'] at hlab
    exact hv v (eq_var_of_label hlab.symm)
  · intro he'
    rw [he'] at hlab
    cases t with
    | tuple elems =>
      have hlen : elems.length = 0 := by simpa [label] using hlab.symm
      exact he (congrArg tuple (length_eq_zero_iff.mp hlen))
    | _ => simp [label] at hlab

theorem rebuild_self (t : Ty) : t.rebuild t.lifetime t.parts = t :=
  eq_of_shape (label_rebuild rfl) (lifetime_rebuild_self t t.parts) (parts_rebuild rfl)

theorem Compound.tidy_of_parts (h : t.Compound) (hp : ∀ u ∈ t.parts, u.tidy = u) : t.tidy = t := by
  rw [h.tidy_eq, map_congr_left hp, List.map_id', rebuild_self]

/-- Putting in types without empty tuples brings in none. -/
theorem tidy_mapVars {f : TypeVar → Ty} (hf : ∀ v, (f v).tidy = f v) (h : t.tidy = t) :
    (t.mapVars f).tidy = t.mapVars f := by
  induction t using induction_on_parts with
  | var v => rw [mapVars_var, hf]
  | node t hnv ih =>
    rcases compound_cases t with ⟨v, rfl⟩ | ⟨b, rfl⟩ | rfl | hc
    · exact absurd rfl (hnv v)
    · rfl
    · cases h
    · have hparts : t.parts.map tidy = t.parts.map id := by
        have heq := congrArg parts hc.tidy_eq
        rw [h, parts_rebuild (length_map _)] at heq
        exact heq.symm.trans (List.map_id _).symm
      rw [mapVars_eq_rebuild f hnv]
      refine (hc.rebuild (length_map _)).tidy_of_parts fun u' hu' => ?_
      rw [parts_rebuild (length_map _)] at hu'
      obtain ⟨u, hu, rfl⟩ := List.mem_map.mp hu'
      exact ih u hu (map_inj_left.mp hparts u hu)

end Ty

open Ty

namespace Registry

/-! ## The list of registered types -/

/-- The registered types, in the order of their ids. -/
def types (r : Registry) : List Ty := r.entries.toList.map (·.type)

/-- Whether a type is registered. -/
def Holds (r : Registry) (t : Ty) : Prop := t ∈ r.types

/-- Whether a type is made over the variables of the registry. It need not be registered. -/
def Spans (r : Registry) (t : Ty) : Prop := ∀ v, t.Mentions v → r.Holds (.var v)

theorem length_types (r : Registry) : r.types.length = r.size := by
  rw [types, length_map, Array.length_toList]
  rfl

theorem get?_eq (r : Registry) (i : Nat) : r.get? i = r.types[i]? := by
  rw [get?, types, getElem?_map, Array.getElem?_toList]

theorem holds_iff_get? : r.Holds t ↔ ∃ i, r.get? i = some t := by
  simp only [get?_eq, Holds, mem_iff_getElem?]

theorem entry_mem_iff : Entry.of t ∈ r.entries ↔ r.Holds t := by
  rw [Holds, types, List.mem_map, ← Array.mem_toList_iff]
  constructor
  · intro h
    exact ⟨Entry.of t, h, rfl⟩
  · rintro ⟨e, he, rfl⟩
    rwa [show Entry.of e.type = e from (Entry.eq_iff _ _).mpr rfl]

theorem types_add (r : Registry) (t : Ty) :
    (r.add t).types = if t ∈ r.types then r.types else r.types ++ [t] := by
  unfold add
  by_cases h : t ∈ r.types
  · rw [if_pos h, if_pos (entry_mem_iff.mpr h)]
  · rw [if_neg h, if_neg (fun he => h (entry_mem_iff.mp he))]
    simp [types, Entry.of]

@[simp] theorem bindings_add (r : Registry) (t : Ty) : (r.add t).bindings = r.bindings := by
  unfold add
  dsimp only
  split <;> rfl

/-- The id of a registered type that is not a variable is its first place. -/
theorem idOf_eq_idxOf (r : Registry) (h : ∀ v, t ≠ .var v) : r.idOf t = r.types.idxOf t := by
  have hid : r.idOf t = r.entries.idxOf (.of t) := by
    cases t with
    | var v => exact absurd rfl (h v)
    | _ => rfl
  -- an entry is told by its type, so that the two searches stop at the same place
  have hmap : ∀ es : List Entry, es.idxOf (.of t) = (es.map (·.type)).idxOf t := by
    intro es
    induction es with
    | nil => rfl
    | cons e es ih =>
      have hbeq : (e == Entry.of t) = (e.type == t) := by
        rw [Bool.eq_iff_iff, beq_iff_eq, beq_iff_eq]
        exact Entry.eq_iff e (.of t)
      rw [map_cons, idxOf_cons, idxOf_cons, ih, hbeq]
  rw [hid, types, ← hmap, ← idxOf_toArray, Array.toArray_toList]

/-! ## The invariant of the registered types -/

structure Interned (r : Registry) : Prop where
  /-- No type stands twice. -/
  nodup : r.types.Nodup
  /-- A variable stands at its own id. -/
  var_id : ∀ {i : Nat} {v : TypeVar}, r.types[i]? = some (.var v) → v.id = i
  /-- The parts of a type stand before it. -/
  parts_before : ∀ {i : Nat} {t : Ty}, r.types[i]? = some t →
    ∀ u ∈ t.parts, ∃ j < i, r.types[j]? = some u
  basic : ∀ b, r.Holds (.basic b)
  not_empty : ¬ r.Holds (.tuple [])

section

variable (h : r.Interned)
include h

theorem Interned.idOf_eq {i : Nat} (ht : r.types[i]? = some t) : r.idOf t = i := by
  by_cases hv : ∃ v, t = .var v
  · obtain ⟨v, rfl⟩ := hv
    exact h.var_id ht
  · rw [idOf_eq_idxOf r fun v hw => hv ⟨v, hw⟩]
    obtain ⟨hi, rfl⟩ := List.getElem?_eq_some_iff.mp ht
    exact h.nodup.idxOf_getElem i hi

theorem Interned.get?_idOf (ht : r.Holds t) : r.get? (r.idOf t) = some t := by
  obtain ⟨i, hi⟩ := mem_iff_getElem?.mp ht
  rw [h.idOf_eq hi, get?_eq, hi]

theorem Interned.contains_iff : r.contains t = true ↔ r.Holds t := by
  rw [contains, beq_iff_eq]
  constructor
  · intro hc
    exact holds_iff_get?.mpr ⟨_, hc⟩
  · exact h.get?_idOf

theorem Interned.contains_eq_false (ht : ¬ r.Holds t) : r.contains t = false :=
  Bool.eq_false_iff.mpr fun hct => ht (h.contains_iff.mp hct)

theorem Interned.holds_part {u : Ty} (ht : r.Holds t) (hu : u ∈ t.parts) : r.Holds u := by
  obtain ⟨i, hi⟩ := mem_iff_getElem?.mp ht
  obtain ⟨j, _, hj⟩ := h.parts_before hi u hu
  exact mem_iff_getElem?.mpr ⟨j, hj⟩

theorem Interned.spans (ht : r.Holds t) : r.Spans t := by
  induction t using induction_on_parts with
  | var w =>
    intro v hm
    rwa [mentions_var.mp hm] at ht
  | node t hnv ih =>
    intro v hm
    obtain ⟨u, hu, hmu⟩ := (mentions_iff_parts hnv).mp hm
    exact ih u hu (h.holds_part ht hu) v hmu

theorem Interned.var_ext {v w : TypeVar} (hv : r.Holds (.var v)) (hw : r.Holds (.var w))
    (hid : v.id = w.id) : v = w := by
  obtain ⟨i, hi⟩ := mem_iff_getElem?.mp hv
  obtain ⟨j, hj⟩ := mem_iff_getElem?.mp hw
  have hij : i = j := (h.var_id hi).symm.trans (hid.trans (h.var_id hj))
  subst hij
  rw [hi, Option.some_inj, Ty.var.injEq] at hj
  exact hj

theorem Interned.tidy_eq (ht : r.Holds t) : t.tidy = t := by
  induction t using induction_on_parts with
  | var w => rw [tidy]
  | node t hnv ih =>
    rcases compound_cases t with ⟨v, rfl⟩ | ⟨b, rfl⟩ | rfl | hc
    · exact absurd rfl (hnv v)
    · rw [tidy]
    · exact absurd ht h.not_empty
    · exact hc.tidy_of_parts fun u hu => ih u hu (h.holds_part ht hu)

/-- One more type keeps the invariant if it is new, its parts are there and, for a variable, its id
is the next one. -/
theorem Interned.push (htypes : r'.types = r.types ++ [t]) (hnew : ¬ r.Holds t)
    (hempty : t ≠ .tuple []) (hvar : ∀ v, t = .var v → v.id = r.types.length)
    (hparts : ∀ u ∈ t.parts, r.Holds u) : r'.Interned := by
  -- a place of the longer list is an old one or the last
  have hplace : ∀ {i : Nat} {u : Ty}, r'.types[i]? = some u →
      r.types[i]? = some u ∨ (i = r.types.length ∧ u = t) := by
    intro i u hi
    rw [htypes, getElem?_append] at hi
    split at hi
    · exact .inl hi
    · obtain ⟨hlt, hu⟩ := List.getElem?_eq_some_iff.mp hi
      have hlt' : i - r.types.length < 1 := by simpa using hlt
      refine .inr ⟨by omega, ?_⟩
      simpa using hu.symm
  have hkeep : ∀ {j : Nat} {u : Ty}, r.types[j]? = some u → r'.types[j]? = some u := by
    intro j u hj
    obtain ⟨hlt, _⟩ := List.getElem?_eq_some_iff.mp hj
    rw [htypes, getElem?_append_left hlt, hj]
  refine ⟨?_, ?_, ?_, ?_, ?_⟩
  · rw [htypes, nodup_append]
    refine ⟨h.nodup, by simp, ?_⟩
    intro a ha b hb hab
    rw [mem_singleton] at hb
    exact hnew (by rwa [← hb, ← hab])
  · intro i v hi
    rcases hplace hi with hi | ⟨rfl, hv⟩
    · exact h.var_id hi
    · exact hvar v hv.symm
  · intro i u hi p hp
    rcases hplace hi with hi | ⟨rfl, rfl⟩
    · obtain ⟨j, hlt, hj⟩ := h.parts_before hi p hp
      exact ⟨j, hlt, hkeep hj⟩
    · obtain ⟨j, hj⟩ := mem_iff_getElem?.mp (hparts p hp)
      obtain ⟨hlt, _⟩ := List.getElem?_eq_some_iff.mp hj
      exact ⟨j, hlt, hkeep hj⟩
  · intro b
    rw [Holds, htypes]
    exact mem_append_left _ (h.basic b)
  · rw [Holds, htypes, mem_append, mem_singleton]
    rintro (he | he)
    · exact h.not_empty he
    · exact hempty he.symm

end

/-! ## Growth -/

/-- `r'` came out of `r` by registrations: everything stands where it stood, and no variable has
been bound. -/
structure Grows (r r' : Registry) : Prop where
  types : r.types <+: r'.types
  bindings : r'.bindings = r.bindings

theorem Grows.refl (r : Registry) : r.Grows r := ⟨prefix_refl _, rfl⟩

theorem Grows.trans {r'' : Registry} (h : r.Grows r') (h' : r'.Grows r'') : r.Grows r'' :=
  ⟨h.types.trans h'.types, h'.bindings.trans h.bindings⟩

theorem Grows.holds (h : r.Grows r') (ht : r.Holds t) : r'.Holds t := h.types.subset ht

theorem Grows.spans (h : r.Grows r') (ht : r.Spans t) : r'.Spans t := fun v hm => h.holds (ht v hm)

theorem grows_add (r : Registry) (t : Ty) : r.Grows (r.add t) := by
  refine ⟨?_, bindings_add r t⟩
  rw [types_add]
  split
  · exact prefix_refl _
  · exact prefix_append _ _

theorem holds_add (r : Registry) (t : Ty) : (r.add t).Holds t := by
  rw [Holds, types_add]
  split
  · assumption
  · exact mem_append_right _ (mem_singleton_self t)

theorem add_of_holds (h : r.Holds t) : r.add t = r := by
  unfold add
  exact if_pos (entry_mem_iff.mpr h)

theorem Interned.add (h : r.Interned) (hc : t.Compound) (hparts : ∀ u ∈ t.parts, r.Holds u) :
    (r.add t).Interned := by
  by_cases ht : r.Holds t
  · rwa [add_of_holds ht]
  · refine h.push (t := t) ?_ ht hc.2.2 (fun v hv => absurd hv (hc.2.1 v)) hparts
    rw [types_add]
    exact if_neg ht

/-! ## Registration -/

theorem registerAll_nil_run (r : Registry) : (registerAll []).run r = ([], r) := by
  rw [registerAll]
  rfl

theorem registerAll_cons_run (t : Ty) (ts : List Ty) (r : Registry) :
    (registerAll (t :: ts)).run r =
      (((register t).run r).1 :: ((registerAll ts).run ((register t).run r).2).1,
        ((registerAll ts).run ((register t).run r).2).2) := by
  rw [registerAll]
  rfl

theorem length_registerAll (ts : List Ty) (r : Registry) :
    ((registerAll ts).run r).1.length = ts.length := by
  induction ts generalizing r with
  | nil => rw [registerAll_nil_run]
  | cons t ts ih => rw [registerAll_cons_run, length_cons, length_cons, ih]

theorem registerAll_concat_run (ts : List Ty) (t : Ty) (r : Registry) :
    (registerAll (ts ++ [t])).run r =
      (((registerAll ts).run r).1 ++ [((register t).run ((registerAll ts).run r).2).1],
        ((register t).run ((registerAll ts).run r).2).2) := by
  induction ts generalizing r with
  | nil => rw [nil_append, registerAll_cons_run, registerAll_nil_run, registerAll_nil_run]; rfl
  | cons u us ih => rw [cons_append, registerAll_cons_run, ih, registerAll_cons_run]; rfl

theorem register_run_of_contains (h : r.contains t = true) : (register t).run r = (t, r) := by
  rw [register.eq_def]
  simp only [StateT.run_bind, StateT.run_get, pure_bind, h, if_true]
  rfl

/-- A compound type is registered after its parts. -/
theorem register_run_of_compound (h : r.contains t = false) (hc : t.Compound) : (register t).run r =
      (t.rebuild t.lifetime ((registerAll t.parts).run r).1, ((registerAll t.parts).run r).2.add
          (t.rebuild t.lifetime ((registerAll t.parts).run r).1)) := by
  obtain ⟨hb, hv, he⟩ := hc
  rw [register.eq_def]
  cases t with
  | basic b => exact absurd rfl (hb b)
  | var v => exact absurd rfl (hv v)
  | array elem n =>
    simp [h, parts, registerAll_cons_run, registerAll_nil_run, rebuild, intern]
    rfl
  | tuple elems =>
    cases elems with
    | nil => exact absurd rfl he
    | cons u us =>
      simp [h, parts, registerAll_cons_run, rebuild, intern]
      rfl
  | func params result =>
    simp [h, parts, registerAll_concat_run, rebuild, intern]
    rfl
  | ref inner m l =>
    simp [h, parts, registerAll_cons_run, registerAll_nil_run, rebuild, lifetime, intern]
    rfl
  | named name args =>
    simp [h, parts, rebuild, intern]
    rfl

theorem register_run_of_holds (h : r.Interned) (ht : r.Holds t) : (register t).run r = (t, r) :=
  register_run_of_contains (h.contains_iff.mpr ht)

theorem register_run_of_empty (h : r.Interned) : (register (.tuple [])).run r = (.unit, r) := by
  have hct := h.contains_eq_false h.not_empty
  rw [register.eq_def]
  simp [hct]
  rfl

theorem registerAll_run_of_holds (h : r.Interned) (hts : ∀ t ∈ ts, r.Holds t) :
    (registerAll ts).run r = (ts, r) := by
  induction ts with
  | nil => exact registerAll_nil_run r
  | cons t ts ih =>
    have ht : r.Holds t := hts t mem_cons_self
    have hrest := ih fun u hu => hts u (mem_cons_of_mem t hu)
    rw [registerAll_cons_run, register_run_of_holds h ht, hrest]

/-- A compound type over registered parts is added as it is, if it is not there. -/
theorem register_run_of_parts (h : r.Interned) (hc : t.Compound)
    (hparts : ∀ u ∈ t.parts, r.Holds u) :
    (register t).run r = (t, r.add t) := by
  by_cases ht : r.Holds t
  · rw [register_run_of_holds h ht, add_of_holds ht]
  · rw [register_run_of_compound (h.contains_eq_false ht) hc,
      registerAll_run_of_holds h hparts, rebuild_self]

/-- What a registration of `t` in `r` has to give. -/
structure Registered (r : Registry) (t : Ty) (out : Ty × Registry) : Prop where
  type_eq : out.1 = t.tidy
  interned : out.2.Interned
  grows : r.Grows out.2
  holds : out.2.Holds t.tidy

/-- Registering a list, given what each of its types does. -/
theorem registerAll_run (hts : ∀ t ∈ ts, ∀ r : Registry, r.Interned → r.Spans t →
      r.Registered t ((register t).run r))
    (h : r.Interned) (hs : ∀ t ∈ ts, r.Spans t) :
    ((registerAll ts).run r).1 = ts.map tidy ∧ ((registerAll ts).run r).2.Interned ∧
      r.Grows ((registerAll ts).run r).2 ∧ ∀ t ∈ ts, ((registerAll ts).run r).2.Holds t.tidy := by
  induction ts generalizing r with
  | nil =>
    rw [registerAll_nil_run]
    exact ⟨rfl, h, Grows.refl r, by simp⟩
  | cons t ts ih =>
    have hfirst := hts t mem_cons_self r h (hs t mem_cons_self)
    obtain ⟨htypes, hint, hgrows, hholds⟩ :=
      ih (fun u hu => hts u (mem_cons_of_mem t hu)) hfirst.interned
        fun u hu => hfirst.grows.spans (hs u (mem_cons_of_mem t hu))
    rw [registerAll_cons_run]
    refine ⟨?_, hint, hfirst.grows.trans hgrows, ?_⟩
    · rw [map_cons, hfirst.type_eq, htypes]
    · intro u hu
      rcases mem_cons.mp hu with rfl | hu
      · exact hgrows.holds hfirst.holds
      · exact hholds u hu

/-- **Registration.** A type made over the variables of a registry is registered: what comes back is
the type without its empty tuples, it is held from then on, and nothing else has changed. -/
theorem register_run : ∀ {r : Registry}, r.Interned → r.Spans t →
      r.Registered t ((register t).run r) := by
  induction t using induction_on_parts with
  | var v =>
    intro r h hs
    have hv : r.Holds (.var v) := hs v (mentions_var.mpr rfl)
    rw [register_run_of_holds h hv]
    exact ⟨by rw [tidy], h, Grows.refl r, by rwa [tidy]⟩
  | node t hnv ih =>
    intro r h hs
    by_cases ht : r.Holds t
    · rw [register_run_of_holds h ht]
      exact ⟨(h.tidy_eq ht).symm, h, Grows.refl r, by rwa [h.tidy_eq ht]⟩
    rcases compound_cases t with ⟨v, rfl⟩ | ⟨b, rfl⟩ | rfl | hc
    · exact absurd rfl (hnv v)
    · exact absurd (h.basic b) ht
    · rw [register_run_of_empty h]
      exact ⟨by rw [tidy], h, Grows.refl r, by rw [tidy]; exact h.basic .unit⟩
    · -- the parts are registered first; the type is added over what they became
      obtain ⟨htypes, hint, hgrows, hholds⟩ :=
        registerAll_run (fun u hu r' h' hs' => ih u hu h' hs') h fun u hu v hm =>
          hs v (hm.of_part hu)
      rw [register_run_of_compound (h.contains_eq_false ht) hc, htypes, ← hc.tidy_eq]
      have hlen : (t.parts.map tidy).length = t.parts.length := length_map _
      have hparts : ∀ u ∈ t.tidy.parts, ((registerAll t.parts).run r).2.Holds u := by
        intro u hu
        rw [hc.tidy_eq, parts_rebuild hlen] at hu
        obtain ⟨w, hw, rfl⟩ := List.mem_map.mp hu
        exact hholds w hw
      have hc' : t.tidy.Compound := by
        rw [hc.tidy_eq]
        exact hc.rebuild hlen
      exact ⟨rfl, hint.add hc' hparts, hgrows.trans (grows_add _ _), holds_add _ _⟩

/-- Registering a compound type is registering its parts and then the type over what these
became. -/
theorem register_run_eq_parts (h : r.Interned) (hc : t.Compound) (hs : r.Spans t) :
    (register t).run r =
      (register (t.rebuild t.lifetime ((registerAll t.parts).run r).1)).run
        ((registerAll t.parts).run r).2 := by
  by_cases ht : r.Holds t
  · -- the parts are held as well, so that both sides leave the registry alone
    rw [registerAll_run_of_holds h fun u hu => h.holds_part ht hu, rebuild_self]
  · obtain ⟨htypes, hint, _, hholds⟩ :=
      registerAll_run (fun u _ r' h' hs' => register_run h' hs') h fun u hu v hm =>
        hs v (hm.of_part hu)
    have hlen := length_registerAll t.parts r
    rw [register_run_of_compound (h.contains_eq_false ht) hc,
      register_run_of_parts hint (hc.rebuild hlen)]
    intro u hu
    rw [parts_rebuild hlen, htypes] at hu
    obtain ⟨w, hw, rfl⟩ := List.mem_map.mp hu
    exact hholds w hw

/-! ## New registries and new variables -/

theorem types_empty (n : Nat) : (empty n).types = Basic.all.map .basic := by
  simp [types, empty, Entry.of]

/-- A new registry knows the basic types, each under its own code. -/
theorem interned_empty (n : Nat) : (empty n).Interned := by
  have hbasic : ∀ {i : Nat} {t : Ty}, (empty n).types[i]? = some t → ∃ b, t = .basic b := by
    intro i t hi
    have hm : t ∈ (empty n).types := mem_iff_getElem?.mpr ⟨i, hi⟩
    rw [types_empty] at hm
    obtain ⟨b, _, rfl⟩ := List.mem_map.mp hm
    exact ⟨b, rfl⟩
  refine ⟨?_, ?_, ?_, ?_, ?_⟩
  · rw [types_empty]
    decide
  · intro i v hi
    obtain ⟨b, hb⟩ := hbasic hi
    cases hb
  · intro i t hi u hu
    obtain ⟨b, rfl⟩ := hbasic hi
    simp [parts] at hu
  · intro b
    rw [Holds, types_empty]
    cases b <;> decide
  · rw [Holds, types_empty]
    decide

/-- The variable that `newVar` makes in a registry. -/
def nextVar (r : Registry) (hint : String) (rigid : Bool) : TypeVar :=
  { id := r.size, hint, rigid, registry := r.number }

theorem types_newVar (r : Registry) (hint : String) (rigid : Bool) :
    ((newVar hint rigid).run r).2.types = r.types ++ [.var (r.nextVar hint rigid)] := by
  show (r.entries.push (.of (.var (r.nextVar hint rigid)))).toList.map (·.type) = _
  simp [types, Entry.of]

theorem grows_newVar (r : Registry) (hint : String) (rigid : Bool) :
    r.Grows ((newVar hint rigid).run r).2 :=
  ⟨by rw [types_newVar]; exact prefix_append _ _, rfl⟩

theorem Interned.var_id_lt (h : r.Interned) {v : TypeVar} (hv : r.Holds (.var v)) :
    v.id < r.size := by
  obtain ⟨i, hi⟩ := mem_iff_getElem?.mp hv
  obtain ⟨hlt, _⟩ := List.getElem?_eq_some_iff.mp hi
  rwa [h.var_id hi, ← length_types]

/-- A new variable is new: no registered variable has its id yet. -/
theorem Interned.not_holds_nextVar (h : r.Interned) (hint : String) (rigid : Bool) :
    ¬ r.Holds (.var (r.nextVar hint rigid)) :=
  fun hv => Nat.lt_irrefl _ (h.var_id_lt hv)

theorem Interned.newVar (h : r.Interned) (hint : String) (rigid : Bool) :
    ((newVar hint rigid).run r).2.Interned := by
  refine h.push (types_newVar r hint rigid) (h.not_holds_nextVar hint rigid) (by simp) ?_ ?_
  · intro v hv
    rw [← Ty.var.inj hv, length_types]
    rfl
  · intro u hu
    simp [parts] at hu

theorem holds_newVar (r : Registry) (hint : String) (rigid : Bool) :
    ((newVar hint rigid).run r).2.Holds (.var (r.nextVar hint rigid)) := by
  rw [Holds, types_newVar]
  exact mem_append_right _ (mem_singleton_self _)

end Registry

end UnitCheck
