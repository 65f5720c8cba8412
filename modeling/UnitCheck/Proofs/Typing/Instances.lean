import UnitCheck.Proofs.Typing.Reachability

/-!
# Instances of generic types

An instance of a type is a copy with a new variable in the place of each parameter. Calls bind only
the variables that their operands lead to (`Request.performs`), so that the new variables of an
instance stay free as long as no operand mentions them, and with them the instance stays as it is.

* `Consistent.instantiate_instance` — every copy is an instance.
* `Sparing.free` — runs whose operands do not mention some free variables leave them free.
-/

namespace UnitCheck

open Ty Relation List Option

namespace Registry

variable {r r' : Registry} {t : Ty} {params fresh vs : List TypeVar} {ts : List Ty} {v : TypeVar}

/-! ## New variables -/

/-- What stands for a variable in a copy. -/
def inPlace (params fresh : List TypeVar) (v : TypeVar) : TypeVar :=
  ((params.zip fresh).lookup v).getD v

/-- Variables that have come with `r'`, one for each parameter, and that can be bound to
anything. -/
structure Fresh (r : Registry) (params fresh : List TypeVar) (r' : Registry) : Prop where
  length : fresh.length = params.length
  nodup : fresh.Nodup
  new : ∀ v ∈ fresh, ¬ r.Holds (.var v)
  free : ∀ v ∈ fresh, r'.Holds (.var v) ∧ v.rigid = false ∧ r'.binding? v = none

theorem Consistent.binding?_nextVar (h : r.Consistent) (hint : String) (rigid : Bool) :
    r.binding? (r.nextVar hint rigid) = none := by
  rw [← not_isSome_iff_eq_none, isSome_iff_exists]
  rintro ⟨t, hb⟩
  obtain ⟨v, hid, hv, _⟩ := h.key_held (mem_of_lookup hb)
  exact absurd (h.var_id_lt hv) (hid ▸ lt_irrefl _)

/-- Each parameter gets a variable that was not there before, no two of them the same. -/
theorem Consistent.freshen_fresh (h : r.Consistent) (params : List TypeVar) :
    ∃ fresh, Fresh r params fresh ((freshen params).run r).2 ∧
      ((freshen params).run r).1 = params.zip (fresh.map .var) := by
  induction params generalizing r with
  | nil => exact ⟨[], ⟨rfl, .nil, by simp, by simp⟩, rfl⟩
  | cons p ps ih =>
    have hnew := h.newVar p.hint false
    obtain ⟨fresh, hf, heq⟩ := ih hnew.consistent
    have hrest := (hnew.consistent.freshen_run ps).1.grows
    have hheld := holds_newVar r p.hint false
    refine ⟨r.nextVar p.hint false :: fresh, ⟨?_, ?_, ?_, ?_⟩, ?_⟩
    · rw [length_cons, length_cons, hf.length]
    · exact nodup_cons.mpr ⟨fun hm => hf.new _ hm hheld, hf.nodup⟩
    · rw [forall_mem_cons]
      exact ⟨h.not_holds_nextVar p.hint false, fun v hv hr => hf.new v hv (hnew.grows.holds hr)⟩
    · rw [forall_mem_cons]
      refine ⟨⟨hrest.holds hheld, rfl, ?_⟩, hf.free⟩
      rw [freshen_cons_run, hrest.binding?, hnew.grows.binding?, h.binding?_nextVar]
    · rw [freshen_cons_run, heq]
      rfl

/-! ## Copies -/

/-- A copy of `t` with the variables `fresh` in the place of parameters, made without binding
anything. -/
structure Instance (r : Registry) (t : Ty) (params fresh : List TypeVar)
    (out : Ty × Registry) : Prop
    extends Fresh r params fresh out.2 where
  resolved : ((resolve out.1).run out.2).1 =
    ((resolve t).run r).1.mapVars fun v => .var (inPlace params fresh v)
  bindings : out.2.bindings = r.bindings

theorem inPlace_cases (params fresh : List TypeVar) (v : TypeVar) :
    inPlace params fresh v = v ∨ inPlace params fresh v ∈ fresh := by
  unfold inPlace
  cases hl : (params.zip fresh).lookup v with
  | none => exact .inl rfl
  | some w => exact .inr (of_mem_zip (mem_of_lookup hl)).2

/-- If no key comes twice, it does not matter from which end a list is searched. -/
theorem lookup_reverse {α β : Type} [BEq α] [LawfulBEq α]
    {l : List (α × β)} (hnd : (l.map Prod.fst).Nodup)
    (a : α) : l.reverse.lookup a = l.lookup a := by
  induction l with
  | nil => rfl
  | cons p l ih =>
    obtain ⟨hp, hnd⟩ := nodup_cons.mp hnd
    rw [reverse_cons, lookup_append, ih hnd, lookup_cons, lookup_cons, lookup_nil]
    cases ha : a == p.1 with
    | false => exact or_none
    | true =>
      have hnone : l.lookup a = none := by
        cases hl : l.lookup a with
        | none => rfl
        | some b => exact absurd (List.mem_map_of_mem (mem_of_lookup hl)) (eq_of_beq ha ▸ hp)
      rw [hnone]
      rfl

/-- With distinct parameters, each one is replaced by the variable at its own place. -/
theorem replacement_zip (hlen : fresh.length = params.length) (hnd : params.Nodup) (v : TypeVar) :
    replacement (params.zip (fresh.map .var)) v = .var (inPlace params fresh v) := by
  have hkeys : ((params.zip (fresh.map Ty.var)).map Prod.fst).Nodup := by
    rwa [map_fst_zip (by rw [length_map, hlen])]
  have hmap : (params.zip (fresh.map Ty.var)).lookup v =
    ((params.zip fresh).lookup v).map .var := by
    rw [zip_map_right]
    induction params.zip fresh with
    | nil => rfl
    | cons p l ih =>
      rw [map_cons, lookup_cons, lookup_cons, ih, Prod.map_fst, Prod.map_snd, id]
      cases v == p.1 <;> rfl
  rw [replacement, lookup_reverse hkeys, hmap, inPlace]
  cases (params.zip fresh).lookup v <;> rfl

theorem Evolves.applied_eq (hev : r.Evolves r') (h : r.Consistent) (ht : r.Holds t)
    (hfree : ∀ v, (r.applied t).Mentions v → r'.binding? v = none) :
    r'.applied t = r.applied t := by
  rw [h.applied_mono hev.consistent hev.extends_ ht]
  exact mapVars_eq_self fun v hm => applied_free (hfree v hm)

/-- The variables of a type without free variables are never bound, -/
theorem Evolves.binding?_of_fixed (hev : r.Evolves r') (h : r.Consistent) (ht : r.Holds t)
    (hf : Fixed (r.applied t)) (hv : (r.applied t).Mentions v) : r'.binding? v = none :=
  hev.consistent.binding?_of_rigid (hev.extends_.holds (h.mentions_applied ht v hv).1) (hf v hv)

/-- so that it stands for the same forever. -/
theorem Evolves.applied_fixed (hev : r.Evolves r') (h : r.Consistent) (ht : r.Holds t)
    (hf : Fixed (r.applied t)) : r'.applied t = r.applied t :=
  hev.applied_eq h ht fun _ => hev.binding?_of_fixed h ht hf

/-- A copy mentions free variables of the type and new ones, so that it stands for itself. -/
theorem Consistent.applied_copy (h : r.Consistent) (ht : r.Holds t) (hset : r.Settled r')
    (hfree : ∀ w ∈ fresh, r'.binding? w = none) {f : TypeVar → Ty}
    (hf : ∀ v, f v = .var v ∨ ∃ w ∈ fresh, f v = .var w) :
    ((r.applied t).mapVars f).tidy = (r.applied t).mapVars f ∧
      r'.applied ((r.applied t).mapVars f) = (r.applied t).mapVars f := by
  refine ⟨tidy_mapVars (fun v => ?_) (h.tidy_applied ht), mapVars_eq_self fun w hm =>
    applied_free ?_⟩
  · rcases hf v with heq | ⟨w, -, heq⟩ <;> rw [heq] <;> rfl
  · obtain ⟨v, hv, hw⟩ := mentions_mapVars.mp hm
    rcases hf v with heq | ⟨x, hx, heq⟩ <;> rw [heq] at hw <;> obtain rfl := mentions_var.mp hw
    · rw [hset.grows.binding?, (h.mentions_applied ht _ hv).2]
    · exact hfree _ hx

/-- Copies of several types that share their new variables. -/
structure Copies (r : Registry) (ts : List Ty) (params fresh : List TypeVar)
    (out : List Ty × Registry) : Prop
    extends Fresh r params fresh out.2 where
  resolved : out.1.map (fun u => ((resolve u).run out.2).1) =
    ts.map fun t => ((resolve t).run r).1.mapVars (replacement (params.zip (fresh.map .var)))

/-- What a substitution makes of a list of types. -/
theorem Consistent.substituteAll_types (h : r.Consistent) {subst : List (TypeVar × Ty)}
    (hs : ∀ p ∈ subst, r.Holds p.2) (hts : ∀ t ∈ ts, r.Holds t) :
    ((ts.mapM (substitute subst)).run r).1 =
      ts.map fun t => ((r.applied t).mapVars (replacement subst)).tidy := by
  induction ts generalizing r with
  | nil => rfl
  | cons t ts ih =>
    rw [forall_mem_cons] at hts
    have hfirst := h.substitute_run hs hts.1
    have hset := hfirst.settled h
    rw [substituteAll_cons_run, map_cons, hfirst.type_eq, ih hset.consistent
      (fun p hp => hset.grows.holds (hs p hp)) fun u hu => hset.grows.holds (hts.2 u hu)]
    simp only [hset.grows.applied]

/-- **Copies made together share their new variables.** -/
theorem Consistent.instantiateAll_copies (h : r.Consistent) (hts : ∀ t ∈ ts, r.Holds t)
    (params : List TypeVar) :
    ∃ fresh, Copies r ts params fresh ((instantiateAll ts params).run r) := by
  obtain ⟨hset, hholds⟩ := h.instantiateAll_settled hts params
  cases params with
  | nil =>
    refine ⟨[], ⟨rfl, .nil, by simp, by simp⟩, map_congr_left fun t ht => ?_⟩
    change ((resolve t).run r).1 = _
    rw [(h.resolve_run (hts t ht)).type_eq]
    exact (mapVars_eq_self fun v _ => rfl).symm
  | cons p ps =>
    obtain ⟨hfr, hheld⟩ := h.freshen_run (p :: ps)
    obtain ⟨fresh, hf, hsubst⟩ := h.freshen_fresh (p :: ps)
    have hgrown := fun t ht => hfr.grows.holds (hts t ht)
    have hsub := (hfr.consistent.substituteAll_run hheld hgrown).1
    have htypes := hfr.consistent.substituteAll_types hheld hgrown
    rw [← instantiateAll_run r ts rfl] at hsub htypes
    have hfree : ∀ v ∈ fresh, ((instantiateAll ts (p :: ps)).run r).2.binding? v = none :=
      fun v hv => (hsub.grows.binding? v).trans (hf.free v hv).2.2
    -- what a parameter is replaced by is one of the new variables
    have hvars : ∀ v, replacement ((p :: ps).zip (fresh.map .var)) v = .var v ∨
        ∃ w ∈ fresh, replacement ((p :: ps).zip (fresh.map .var)) v = .var w := by
      refine fun v => (replacement_cases _ v).imp_right ?_
      rintro ⟨q, hq, heq⟩
      obtain ⟨w, hw, hvar⟩ := List.mem_map.mp (of_mem_zip hq).2
      exact ⟨w, hw, heq.trans hvar.symm⟩
    refine ⟨fresh, ⟨hf.length, hf.nodup, hf.new, fun v hv => ?_⟩, ?_⟩
    · exact ⟨hsub.grows.holds (hf.free v hv).1, (hf.free v hv).2.1, hfree v hv⟩
    · rw [map_congr_left fun u hu => (hset.consistent.resolve_run (hholds u hu)).type_eq, htypes,
        List.map_map, hsubst]
      refine map_congr_left fun t ht => ?_
      obtain ⟨htidy, hself⟩ := h.applied_copy (hts t ht) hset hfree hvars
      rw [Function.comp_apply, hfr.grows.applied, htidy, hself, (h.resolve_run (hts t ht)).type_eq]

theorem instantiateAll_one (r : Registry) (t : Ty) (params : List TypeVar) :
    (instantiateAll [t] params).run r =
      ([((instantiate t params).run r).1], ((instantiate t params).run r).2) := by
  cases params with
  | nil => rfl
  | cons p ps =>
    rw [instantiateAll_run r [t] rfl, substituteAll_cons_run, instantiate_run r t rfl]
    rfl

/-- **Every copy is an instance.** -/
theorem Consistent.instantiate_instance (h : r.Consistent) (ht : r.Holds t) (hnd : params.Nodup) :
    ∃ fresh, Instance r t params fresh ((instantiate t params).run r) := by
  have hone : ∀ u ∈ [t], r.Holds u := fun u hu => mem_singleton.mp hu ▸ ht
  obtain ⟨fresh, hcopies⟩ := h.instantiateAll_copies hone params
  rw [instantiateAll_one] at hcopies
  have hresolved := (List.cons.inj hcopies.resolved).1
  rw [funext (replacement_zip hcopies.length hnd)] at hresolved
  exact ⟨fresh, hcopies.toFresh, hresolved, (h.instantiate_settled ht params).1.grows.bindings⟩

/-! ## Calls that leave variables alone -/

/-- No operand of a call stands for a type that mentions one of the variables. -/
def Request.Spares (r : Registry) (vs : List TypeVar) (q : Request) : Prop :=
  ∀ t ∈ q.operands, ∀ v ∈ vs, ¬ ((Registry.resolve t).run r).1.Mentions v

/-- `r'` comes after `r` in a run whose operands never mention the variables. -/
def Sparing (vs : List TypeVar) : Registry → Registry → Prop :=
  ReflTransGen fun r r' => ∃ q : Request, q.About r ∧ q.Spares r vs ∧ r' = (q.perform.run r).2

/-- A request that spares some free variables leaves them free. -/
theorem Request.Spares.binding? {q : Request} (hs : q.Spares r vs) (h : r.Consistent)
    (hq : q.About r) (hv : v ∈ vs) (hheld : r.Holds (.var v)) (hfree : r.binding? v = none) :
    (q.perform.run r).2.binding? v = none := by
  have hheldOps : ∀ t ∈ q.operands, r.Holds t := by
    cases q <;> simp_all [Request.operands, Request.About]
  have hbinds := (Request.performs h hq).2 (h.closed_bearing (· ∉ vs)) fun t ht =>
    allVars_bearing_iff.mpr fun w hm hw =>
      hs t ht w hw (by rwa [(h.resolve_run (hheldOps t ht)).type_eq])
  rw [hbinds.spares hheld, hfree]
  intro hall
  have hbear := hall v (mentions_var.mpr rfl)
  rw [Bearing, applied_free hfree] at hbear
  exact hbear v (mentions_var.mpr rfl) hv

/-- **Runs that spare free variables** leave them free. -/
theorem Sparing.free (hrun : Sparing vs r r') (h : r.Consistent)
    (hvs : ∀ v ∈ vs, r.Holds (.var v) ∧ r.binding? v = none) :
    r.Evolves r' ∧ ∀ v ∈ vs, r'.binding? v = none := by
  induction hrun with
  | refl => exact ⟨Evolves.refl h, fun v hv => (hvs v hv).2⟩
  | tail _ hstep ih =>
    obtain ⟨q, hq, hs, rfl⟩ := hstep
    obtain ⟨hev, hfree⟩ := ih
    refine ⟨hev.trans (q.evolves hev.consistent hq), fun v hv => ?_⟩
    exact hs.binding? hev.consistent hq hv (hev.extends_.holds (hvs v hv).1) (hfree v hv)

/-- **Instances are independent.** A copy of a type without free variables stands for what the type
stands for, with a new variable in the place of each parameter, and nothing is bound for it. Of two
copies, the second one has none of the variables of the first one; and as long as no operand
mentions its variables, the second copy stands for what it stood for, and so does the type. -/
theorem instances_independent {r : Registry} (h : r.Reachable) {t : Ty} (ht : r.Holds t)
    (hfixed : r.hasFree t = false) {params : List TypeVar} (hnd : params.Nodup) :
    ∃ fresh, Instance r t params fresh ((instantiate t params).run r) ∧
      ∀ r₁, ((instantiate t params).run r).2.Later r₁ → ∀ others : List TypeVar, others.Nodup →
        ∃ fresh₁, Instance r₁ t others fresh₁ ((instantiate t others).run r₁) ∧
          List.Disjoint fresh fresh₁ ∧
          ∀ r₂, Sparing fresh₁ ((instantiate t others).run r₁).2 r₂ →
            ((resolve ((instantiate t others).run r₁).1).run r₂).1 =
              ((resolve ((instantiate t others).run r₁).1).run
                ((instantiate t others).run r₁).2).1 ∧
            ((resolve t).run r₂).1 = ((resolve t).run r).1 := by
  have hc := h.consistent
  have hset := (hc.instantiate_settled ht params).1
  obtain ⟨fresh, hinst⟩ := hc.instantiate_instance ht hnd
  refine ⟨fresh, hinst, fun r₁ hlater others hnd' => ?_⟩
  have hev := hset.evolves.trans (hlater.evolves hset.consistent)
  have ht₁ := hev.extends_.holds ht
  obtain ⟨hset₁, hholds₁⟩ := hev.consistent.instantiate_settled ht₁ others
  obtain ⟨fresh₁, hinst₁⟩ := hev.consistent.instantiate_instance ht₁ hnd'
  refine ⟨fresh₁, hinst₁, fun v hv hv₁ => ?_, fun r₂ hrun => ?_⟩
  · exact hinst₁.new v hv₁ ((hlater.evolves hset.consistent).extends_.holds (hinst.free v hv).1)
  obtain ⟨hev₂, hfree⟩ := hrun.free hset₁.consistent
    fun v hv => ⟨(hinst₁.free v hv).1, (hinst₁.free v hv).2.2⟩
  -- the variables of the second copy are its own ones and those of the type
  rw [hc.hasFree_eq_false_iff ht] at hfixed
  have hall := (hev.trans hset₁.evolves).trans hev₂
  have hsame : ((resolve ((instantiate t others).run r₁).1).run r₂).1 =
      ((resolve ((instantiate t others).run r₁).1).run ((instantiate t others).run r₁).2).1 := by
    rw [(hset₁.consistent.resolve_run hholds₁).type_eq,
      (hev₂.consistent.resolve_run (hev₂.extends_.holds hholds₁)).type_eq]
    refine hev₂.applied_eq hset₁.consistent hholds₁ fun w hm => ?_
    rw [← (hset₁.consistent.resolve_run hholds₁).type_eq, hinst₁.resolved,
      (hev.consistent.resolve_run ht₁).type_eq, hev.applied_fixed hc ht hfixed,
      mentions_mapVars] at hm
    obtain ⟨v, hv, hw⟩ := hm
    obtain rfl := mentions_var.mp hw
    rcases inPlace_cases others fresh₁ v with heq | hmem
    · rw [heq, hall.binding?_of_fixed hc ht hfixed hv]
    · exact hfree _ hmem
  refine ⟨hsame, ?_⟩
  rw [(hc.resolve_run ht).type_eq, (hall.consistent.resolve_run (hall.extends_.holds ht)).type_eq,
    hall.applied_fixed hc ht hfixed]

/-- Two copies of `(&'l T, [int])`: when the variable of the first one is bound to `int`, the second
one stays as it is. -/
theorem instances_independent_sample :
    let first := (instantiate Sample.right [Sample.param]).run Sample.registry
    let second := (instantiate Sample.right [Sample.param]).run first.2
    let r := ((unify (.var { id := 16, hint := "T", rigid := false }) .int).run.run second.2).2
    ((resolve first.1).run r).1 = .tuple [.ref .int false (some "l"), .array .int none] ∧
      ((resolve second.1).run r).1 = ((resolve second.1).run second.2).1 ∧
      ((resolve second.1).run second.2).1 =
        .tuple [.ref (.var { id := 19, hint := "T", rigid := false }) false (some "l"),
          .array .int none] := by
  intro first second r
  obtain ⟨_, _, hsecond⟩ :=
    instances_independent Sample.reachable Sample.holds_right (by decide +kernel)
    (List.nodup_singleton Sample.param)
  obtain ⟨fresh, hinst, _, hspared⟩ :=
    hsecond first.2 ReflTransGen.refl _ (List.nodup_singleton Sample.param)
  refine ⟨by decide +kernel, (hspared r (ReflTransGen.single ⟨.unify _ _, ?_, ?_, rfl⟩)).1, by
    decide +kernel⟩
  · decide +kernel
  · -- what is unified is in the registry before the second copy is made
    have hvar : ((resolve (.var { id := 16, hint := "T", rigid := false })).run second.2).1 =
        .var { id := 16, hint := "T", rigid := false } := by decide +kernel
    have hint : ((resolve .int).run second.2).1 = .int := by decide +kernel
    intro t ht v hv hm
    rcases List.mem_cons.mp ht with rfl | ht
    · rw [hvar, mentions_var] at hm
      exact hinst.new v hv (hm ▸ by decide +kernel)
    · rw [List.mem_singleton.mp ht, hint] at hm
      cases hm

end Registry

end UnitCheck
