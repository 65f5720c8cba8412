import UnitCheck.Proofs.Checking.Outcomes

/-!
# Annotations

An annotation is converted to a registered type, or to a diagnostic about the unit. `EndsOk` is the
judgement for checks that may fail with a diagnostic; the conversion is gone through by the
structure of annotations.
-/

namespace UnitCheck

open List Diagnostic

/-- The types of a signature are registered. -/
structure Store.Signs (s : Store) (sig : Checking.Signature) : Prop where
  params : ∀ t ∈ sig.params, s.registry.Holds t
  result : s.registry.Holds sig.result
  whole : s.registry.Holds sig.type

namespace Checking

/-- What a check that may fail has to give. -/
def Gives {α : Type} (A : Sites) (Q : Store → α → Prop) (s : Store) : Except Diagnostic α → Prop
  | .ok a => Q s a
  | .error d => d.Clean A

/-- A check that may fail, with what it gives when it does not. -/
def EndsOk {α : Type} (ρ : Rights) (s : Store) (x : ExceptT Diagnostic CheckM α)
    (Q : Store → α → Prop) : Prop :=
  Ends ρ s x.run (Gives ρ.sites Q)

section

variable {α β : Type} {ρ : Rights} {s : Store} {Q : Store → α → Prop} {Q' : Store → β → Prop}

theorem EndsOk.bind {x : ExceptT Diagnostic CheckM α} {f : α → ExceptT Diagnostic CheckM β}
    (hx : EndsOk ρ s x Q)
    (hf : ∀ a s', s'.Good → s.Evaluates ρ s' → Q s' a → EndsOk ρ s' (f a) Q') :
    EndsOk ρ s (x >>= f) Q' := by
  show Ends ρ s (x.run >>= ExceptT.bindCont f) (Gives ρ.sites Q')
  refine Ends.bind hx fun out s' h' he hq => ?_
  cases out with
  | ok a => exact hf a s' h' he hq
  | error d => exact .pure h' hq

theorem EndsOk.pure {a : α} (h : s.Good) (ha : Q s a) : EndsOk ρ s (Pure.pure a) Q := Ends.pure h ha

theorem EndsOk.throw {d : Diagnostic} (h : s.Good) (hd : d.Clean ρ.sites) :
    EndsOk ρ s (throw d) Q :=
  Ends.pure h hd

/-- A check that cannot fail. -/
theorem EndsOk.lift {x : CheckM α} (hx : Ends ρ s x Q) :
    EndsOk ρ s (liftM x : ExceptT Diagnostic CheckM α) Q :=
  ⟨hx.good, hx.evaluates, hx.result⟩

end

section

variable {ρ : Rights} {s : Store} {args : List Ty} {pos : Position}

/-! ## Names -/

/-- The type of a structure, class or enumeration, which is named. -/
theorem nominalType_ends (h : s.Good) {y : Symbol} (hy : s.registry.Admits y)
    (hk : y.kind.isNominal = true) (hargs : ∀ a ∈ args, s.Holds a) (hpos : ρ.sites.covers pos) :
    Ends ρ s (nominalType y args pos) (Gives ρ.sites fun s' t => s'.Holds t) := by
  unfold nominalType
  split
  · exact .pure h (clean_mk' hpos _ rfl)
  next type htype =>
    split
    · exact .pure h (hy.holds type htype)
    split
    · exact .pure h (clean_mk' hpos _ rfl)
    obtain ⟨name, params, rfl⟩ := hy.named hk type htype
    refine (register_ends h (by simp) ?_).bind fun t s' h' _ ht => .pure h' ht
    simpa [Ty.parts] using hargs

/-- A named type is converted to a type of the registry, or it is reported at its place. -/
theorem namedType_ends (h : s.Good) (path : List String) (hargs : ∀ a ∈ args, s.Holds a)
    (hpos : ρ.sites.covers pos) :
    Ends ρ s (namedType path args pos) (Gives ρ.sites fun s' t => s'.Holds t) := by
  unfold namedType
  refine (resolvePath_ends h path hpos).bind fun found s' h' he hfound => ?_
  cases found with
  | error d =>
    refine .pure h' ?_
    split
    · exact clean_of_code rfl hfound.covered
    · exact hfound
  | ok id =>
    refine (useSymbol_ends h' hfound).bind fun y s'' h'' he' hy => ?_
    have hargs' : ∀ a ∈ args, s''.Holds a := fun a ha => he'.holds (he.holds (hargs a ha))
    split
    · split
      · refine .pure h'' ?_
        cases htype : y.type with
        | none => exact h''.registry.basic .invalid
        | some t => exact hy.admits.holds t htype
      · exact .pure h'' (clean_mk' hpos _ rfl)
    · next hk => exact nominalType_ends h'' hy.admits (by rw [hk]; rfl) hargs' hpos
    · next hk => exact nominalType_ends h'' hy.admits (by rw [hk]; rfl) hargs' hpos
    · next hk => exact nominalType_ends h'' hy.admits (by rw [hk]; rfl) hargs' hpos
    · exact .pure h'' (clean_mk' hpos _ rfl)

theorem convertName_ends (h : s.Good) (path : List String) (hargs : ∀ a ∈ args, s.Holds a)
    (hpos : ρ.sites.covers pos) :
    EndsOk ρ s (TypeExpr.convertName converter path args pos) fun s' t => s'.Holds t := by
  unfold TypeExpr.convertName
  split
  · split
    next b _ =>
      split
      · exact .pure h (h.registry.basic b)
      · exact .throw h (clean_mk' hpos _ rfl)
    · exact namedType_ends h _ hargs hpos
  · exact namedType_ends h _ hargs hpos

/-! ## Types -/

theorem registered_ends (h : s.Good) {t : Ty} (hnv : ∀ v, t ≠ .var v)
    (ht : ∀ u ∈ t.parts, s.Holds u) :
    EndsOk ρ s (liftM (converter.register t) : ExceptT Diagnostic CheckM Ty)
      fun s' u => s'.Holds u :=
  .lift (register_ends h hnv ht)

mutual

/-- So is every annotation, by induction on how it is put together. -/
theorem convert_endsOk (e : TypeExpr) (hat : e.Placed ρ.sites) {s : Store} (h : s.Good) :
    EndsOk ρ s (e.convert converter) fun s' t => s'.Holds t := by
  match e with
  | .named path args pos =>
    rw [TypeExpr.convert]
    split
    · exact .throw h (clean_mk' hat.1 _ rfl)
    · exact (convertAll_endsOk args hat.2 h).bind fun ts s' h' _ hts =>
        convertName_ends h' path hts hat.1
  | .array elem length pos =>
    rw [TypeExpr.convert]
    refine (convert_endsOk elem hat.2 h).bind fun t s' h' _ ht => ?_
    split
    · exact registered_ends h' (by simp) (by simpa [Ty.parts] using ht)
    · split
      · exact .throw h' (clean_mk' hat.1 _ rfl)
      · exact registered_ends h' (by simp) (by simpa [Ty.parts] using ht)
  | .tuple elems pos =>
    rw [TypeExpr.convert]
    exact (convertAll_endsOk elems hat.2 h).bind fun ts s' h' _ hts =>
      registered_ends h' (by simp) (by simpa [Ty.parts] using hts)
  | .func params result pos =>
    rw [TypeExpr.convert]
    refine (convertAll_endsOk params hat.2.1 h).bind fun ps s' h' _ hps => ?_
    refine (convertResult_endsOk result hat.2.2 h').bind fun t s'' h'' he ht => ?_
    refine registered_ends h'' (by simp) ?_
    intro u hu
    -- types of parameters are still known behind the result
    rcases mem_append.mp hu with hu | hu
    · exact he.holds (hps u hu)
    · rwa [mem_singleton.mp hu]
  | .ref inner m l pos =>
    rw [TypeExpr.convert]
    exact (convert_endsOk inner hat.2 h).bind fun t s' h' _ ht =>
      registered_ends h' (by simp) (by simpa [Ty.parts] using ht)

theorem convertAll_endsOk (es : List TypeExpr) (hat : TypeExpr.AllPlaced ρ.sites es) {s : Store}
    (h : s.Good) :
    EndsOk ρ s (TypeExpr.convertAll converter es) fun s' ts => ∀ t ∈ ts, s'.Holds t := by
  match es with
  | [] =>
    rw [TypeExpr.convertAll]
    exact .pure h (by simp)
  | e :: es =>
    rw [TypeExpr.convertAll]
    refine (convert_endsOk e hat.1 h).bind fun t s' h' _ ht => ?_
    refine (convertAll_endsOk es hat.2 h').bind fun ts s'' h'' he hts => ?_
    exact .pure h'' (forall_mem_cons.mpr ⟨he.holds ht, hts⟩)

theorem convertResult_endsOk (e : Option TypeExpr)
    (hat : TypeExpr.ResultPlaced ρ.sites e) {s : Store}
    (h : s.Good) : EndsOk ρ s (TypeExpr.convertResult converter e) fun s' t => s'.Holds t := by
  match e with
  | none =>
    rw [TypeExpr.convertResult]
    exact .pure h (h.registry.basic .unit)
  | some e =>
    rw [TypeExpr.convertResult]
    exact convert_endsOk e hat h

end

theorem convertTyped_ends (h : s.Good) {e : TypeExpr} (hat : e.Placed ρ.sites) :
    Ends ρ s (convertTyped e) (Store.Types ρ.sites) := by
  unfold convertTyped
  refine Ends.bind (convert_endsOk e hat h) fun out s' h' _ hout => ?_
  cases out with
  | ok t => exact .pure h' ⟨hout, allClean_nil⟩
  | error d => exact .pure h' ⟨h'.registry.basic .invalid, allClean_one hout⟩

/-! ## Signatures -/

theorem paramType_ends (h : s.Good) (owner : String) {p : Param} (hat : p.Placed ρ.sites) :
    Ends ρ s (paramType owner p) (Store.Types ρ.sites) := by
  unfold paramType
  split
  · next t ht => exact convertTyped_ends h (hat.type t ht)
  · exact .pure h (.broken h (allClean_mk' hat.label.pos _ rfl))

/-- A signature made of typed parts: the faults of the parts are kept, and the type of the function
is registered. -/
theorem signed_ends (h : s.Good) {params : List Typed} {result : Typed}
    (hparams : ∀ t ∈ params, s.Types ρ.sites t) (hresult : s.Types ρ.sites result) :
    Ends ρ s (do
      let signature : Signature := { params := params.map (·.type), result := result.type }
      discard (register signature.type)
      return (signature, params.flatMap (·.faults) ++ result.faults))
      fun s' out => s'.Signs out.1 ∧ AllClean ρ.sites out.2 := by
  have hheld : ∀ t ∈ params.map (·.type), s.Holds t := by
    intro t ht
    obtain ⟨p, hp, rfl⟩ := List.mem_map.mp ht
    exact (hparams p hp).holds
  have hclean : AllClean ρ.sites (params.flatMap (·.faults) ++ result.faults) := by
    refine AllClean.append (fun d hd => ?_) hresult.clean
    obtain ⟨p, hp, hmem⟩ := mem_flatMap.mp hd
    exact (hparams p hp).clean d hmem
  have hregister : Ends ρ s (register (.func (params.map (·.type)) result.type)) fun s' u =>
      u = .func (params.map (·.type)) result.type ∧
        s'.Holds (.func (params.map (·.type)) result.type) := by
    refine register_compound_ends h (by simp [Ty.Compound]) fun u hu => ?_
    rcases mem_append.mp hu with hu | hu
    · exact hheld u hu
    · rw [mem_singleton.mp hu]
      exact hresult.holds
  refine Ends.bind hregister.discard fun _ s' h' he hwhole => ?_
  obtain ⟨_, _, hwhole⟩ := hwhole
  exact .pure h' ⟨⟨fun t ht => he.holds (hheld t ht), he.holds hresult.holds, hwhole⟩, hclean⟩

/-- The signature of a function, whatever is wrong with its annotations. -/
theorem signature_ends (h : s.Good) {f : FunctionHead} (hat : f.Placed ρ.sites) :
    Ends ρ s (signature f) fun s' out => s'.Signs out.1 ∧ AllClean ρ.sites out.2 := by
  unfold signature
  have hparams : Ends ρ s (f.params.mapM (paramType f.head.label.text))
      fun s' ts => ∀ t ∈ ts, s'.Types ρ.sites t :=
    .mapM h (fun he ht => ht.mono he.toReaches) fun p hp _ h => paramType_ends h _ (hat.params p hp)
  refine hparams.bind fun params s' h' _ hparams => ?_
  split
  · exact signed_ends h' hparams (.ok (h'.registry.basic .unit))
  next t ht =>
    refine (convertTyped_ends h' (hat.result t ht)).bind fun result s'' h'' he hresult => ?_
    exact signed_ends h'' (fun t ht => (hparams t ht).mono he.toReaches) hresult

end

end Checking

end UnitCheck
