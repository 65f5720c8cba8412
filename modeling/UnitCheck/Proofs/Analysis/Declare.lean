import UnitCheck.Proofs.Analysis.Collect

/-!
# Declaring types

The second pass enters the scopes that the first one opened and gives items their types. Each plan
that it makes can be carried out in the scope in which the item stands (`Plan.Stands`): the scopes
it names lie right below, and its types are registered.
-/

namespace UnitCheck

open Checking List Option

variable {c m id : Nat} {s' : Store} {kind : SymbolKind} {functions : List Function} {s : Store}
  {plans : List (Option FunctionPlan)}

/-! ## What the pass hands on -/

/-- Whatever has been registered and declared still is. -/
structure Store.Advances (s s' : Store) : Prop where
  registry : s.registry.Extends s'.registry
  table : s.table.Grows s'.table

theorem Store.Reaches.advances {P : Int → Prop} (h : s.Reaches P s') : s.Advances s' :=
  ⟨h.registry, h.table⟩

theorem Store.Advances.trans {s'' : Store} (h : s.Advances s') (h' : s'.Advances s'') :
    s.Advances s'' :=
  ⟨h.registry.trans h'.registry, h.table.trans h'.table⟩

theorem Store.Descends.advances {s₁ : Store} (hd : s.Descends s₁) : s.Advances s₁ :=
  ⟨hd.registry ▸ .refl _, hd.table⟩

theorem Store.advances_left (s : Store) (outer : Nat) : s.Advances (s.left outer) :=
  ⟨.refl _, s.table.grows_goto outer⟩

theorem Store.Signs.mono {sig : Signature} (h : s.Signs sig) (ha : s.Advances s') : s'.Signs sig :=
  ⟨fun t ht => ha.registry.holds (h.params t ht), ha.registry.holds h.result,
    ha.registry.holds h.whole⟩

/-- A function whose own scope lies right below the scope `c`. -/
structure Store.Plans (s : Store) (c : Nat) (p : FunctionPlan) : Prop where
  opens : ∃ m, s.table.Opens c .function p.symbol m
  signs : s.Signs p.signature

/-- Functions whose own scopes lie right below the scope `c`; some may be missing. -/
def Store.AllPlan (s : Store) (c : Nat) (plans : List (Option FunctionPlan)) : Prop :=
  ∀ o ∈ plans, ∀ p ∈ o, s.Plans c p

theorem Store.Plans.mono {p : FunctionPlan} (h : s.Plans c p) (ha : s.Advances s') :
    s'.Plans c p := by
  obtain ⟨m, ho⟩ := h.opens
  exact ⟨⟨m, ho.grows ha.table⟩, h.signs.mono ha⟩

theorem Store.AllPlan.mono (h : s.AllPlan c plans) (ha : s.Advances s') : s'.AllPlan c plans :=
  fun o ho p hp => (h o ho p hp).mono ha

/-- The first function's plan and those of the others. -/
theorem Store.allPlan_headD (h : s.AllPlan c plans) :
    (∀ p ∈ plans.headD none, s.Plans c p) ∧ s.AllPlan c plans.tail := by
  cases plans with
  | nil => exact ⟨fun p hp => absurd hp (by simp), h⟩
  | cons o rest =>
    exact ⟨h o mem_cons_self, fun o' ho' => h o' (mem_cons_of_mem _ ho')⟩

mutual

/-- A plan that can be carried out in the scope `c`. -/
@[simp] def Plan.Stands (s : Store) (c : Nat) : Plan → Prop
  | .none => True
  | .value id => ∃ y, s.table.symbols[id]? = some y ∧ y.scope = c ∧ y.kind.isNominal = false
  | .function p => s.Plans c p
  | .methods id plans => ∃ kind m, kind ≠ .function ∧ s.table.Opens c kind id m ∧ s.AllPlan m plans
  | .implementation scope target plans =>
    (∃ id, s.table.Opens c .implementation id scope) ∧ s.registry.Holds target ∧
      s.AllPlan scope plans
  | .moduleBody id plans => ∃ m, s.table.Opens c .moduleBlock id m ∧ Plan.AllStand s m plans

@[simp] def Plan.AllStand (s : Store) (c : Nat) : List Plan → Prop
  | [] => True
  | plan :: plans => plan.Stands s c ∧ Plan.AllStand s c plans

end

/-- Each function has a plan. -/
abbrev Function.AllPlanned (functions : List Function)
    (plans : List (Option FunctionPlan)) : Prop :=
  Forall₂ (fun _ plan => ∃ p, plan = some p) functions plans

mutual

/-- Nothing is missing from the plan of an item. In the scope of an implementation of a trait, each
of its functions has a name of its own. -/
@[simp] def Item.Suits : Item → Plan → Prop
  | .function _, plan => ∃ p, plan = .function p
  | .classType _ functions, plan | .traitType _ functions, plan =>
    ∃ id plans, plan = .methods id plans ∧ Function.AllPlanned functions plans
  | .implementation d functions, plan =>
    ∃ scope target plans, plan = .implementation scope target plans ∧
      Function.AllPlanned functions plans ∧
      (d.trait.isSome = true → ("Self" :: functions.map Function.name).Nodup)
  | .moduleBlock _ body, plan => ∃ id plans, plan = .moduleBody id plans ∧ Item.AllSuit body plans
  | _, _ => True

@[simp] def Item.AllSuit : List Item → List Plan → Prop
  | [], _ => True
  | i :: rest, plans => i.Suits (plans.headD .none) ∧ Item.AllSuit rest plans.tail

end

/-- The first item's plan and those of the others. -/
theorem Plan.allStand_headD {plans : List Plan} (h : Plan.AllStand s c plans) :
    (plans.headD .none).Stands s c ∧ Plan.AllStand s c plans.tail := by
  cases plans with
  | nil => simp
  | cons plan rest => exact h

mutual

/-- A plan stands while the store advances. -/
theorem Plan.Stands.mono {s s' : Store} (ha : s.Advances s') (plan : Plan) {c : Nat}
    (h : plan.Stands s c) : plan.Stands s' c := by
  match plan with
  | .none => simp
  | .value id =>
    obtain ⟨y, hy, hscope, hk⟩ := h
    obtain ⟨y', hy', hst⟩ := ha.table.symbol hy
    exact ⟨y', hy', hst.scope_eq.trans hscope, by rwa [hst.kind_eq]⟩
  | .function p =>
    rw [Plan.Stands] at h ⊢
    exact h.mono ha
  | .methods id plans =>
    obtain ⟨kind, m, hk, ho, hplans⟩ := h
    exact ⟨kind, m, hk, ho.grows ha.table, hplans.mono ha⟩
  | .implementation scope target plans =>
    obtain ⟨⟨id, ho⟩, htarget, hplans⟩ := h
    exact ⟨⟨id, ho.grows ha.table⟩, ha.registry.holds htarget, hplans.mono ha⟩
  | .moduleBody id plans =>
    obtain ⟨m, ho, hplans⟩ := h
    exact ⟨m, ho.grows ha.table, Plan.AllStand.mono ha plans hplans⟩

theorem Plan.AllStand.mono {s s' : Store} (ha : s.Advances s') (plans : List Plan) {c : Nat}
    (h : Plan.AllStand s c plans) : Plan.AllStand s' c plans := by
  match plans with
  | [] => simp
  | plan :: plans =>
    exact ⟨Plan.Stands.mono ha plan h.1, Plan.AllStand.mono ha plans h.2⟩

end

namespace Analysis

section

variable {A : Sites} {P : Int → Prop} {s : Store} {pos : Position}

/-! ## Names with types -/

section

variable (h : s.Good) {label : Label} {type : Option Ty} {d : ImplHead}
include h

/-- A declaration with a type, which is new unless its name is taken. -/
theorem declareTyped_reports (hlabel : A.covers label.pos) (hk : kind.isNominal = false)
    (ht : ∀ t, type = some t → s.Holds t) (mutable isPublic : Bool) :
    Yields A P s (declareTyped label kind type mutable isPublic) (fun s' out =>
      ∀ id, out = some id → s'.New id label.text kind s'.table.current) fun _ out =>
        out ≠ none := by
  unfold declareTyped
  refine (reports_lift (declareTyped_ends h label.text hk hlabel ht mutable)).then
    fun out s' h' ha hout => ?_
  cases out with
  | error fault => exact .error h' (hout hlabel) (fault.not_warning _) fun id heq => by cases heq
  | ok id =>
    have hf : Symbol.Amends fun s => { s with isPublic } := .of_same fun _ => rfl
    refine (amend_reports h' id hf (fun y hy => hy.of_eq rfl rfl rfl) fun _ _ => rfl).then
      fun _ s'' h'' ha' hs'' => .pure h'' (fun id' heq => ?_) (by simp)
    obtain rfl := some.inj heq
    subst hs''
    have hnew := Store.New.amend hout hf
    rwa [← ha.current] at hnew

/-- A variable of a type that is known is declared and tracked. -/
theorem keepTyped_reports (hlabel : A.covers label.pos) (hk : kind.isNominal = false)
    (ht : ∀ t, type = some t → s.Holds t) (mutable isPublic : Bool) :
    ReportsUnder A P s (do
      match ← declareTyped label kind type mutable isPublic with
      | none => return Plan.none
      | some id =>
        keep id label.text mutable false
        return .value id) fun s' plan => plan.Stands s' s'.table.current := by
  refine (declareTyped_reports h hlabel hk ht mutable isPublic).toReportsUnder.bind
    fun out s' h' ha hout => ?_
  cases out with
  | none => exact .pure h' (by simp)
  | some id =>
    have hnew := hout id rfl
    refine (reports_lift (keep_ends h' hnew mutable false)).bind fun _ s'' h'' ha' _ => .pure h'' ?_
    obtain ⟨⟨y, hy, hkind, hscope, -⟩, -⟩ := hnew
    obtain ⟨y', hy', hst⟩ := ha'.table.symbol hy
    rw [Plan.Stands, ha'.current]
    exact ⟨y', hy', hst.scope_eq.trans hscope, by rw [hst.kind_eq, hkind, hk]⟩

theorem declareValue_reports (hlabel : A.covers label.pos)
    (hk : kind.isNominal = false) {type : Option TypeExpr} (hat : ∀ t ∈ type, t.Placed A)
    (mutable isPublic : Bool) :
    ReportsUnder A P s (declareValue label kind type mutable isPublic) fun s' plan =>
      plan.Stands s' s'.table.current := by
  unfold declareValue
  split
  · exact keepTyped_reports h hlabel hk (fun t heq => by cases heq) mutable isPublic
  · refine (reports_lift (convertTyped_ends h (hat _ rfl))).bind fun t s' h' _ ht =>
      .reported h' ht ?_
    exact keepTyped_reports h' hlabel hk (fun t heq => some.inj heq ▸ ht.holds) mutable isPublic

/-! ## Functions -/

/-- The signature of a function is converted in its own scope. -/
theorem declareSignature_reports (ho : s.table.Opens s.table.current .function id m)
    {f : FunctionHead} (hat : f.Placed A) : ReportsUnder A P s (declareSignature id f) fun s' out =>
      ∃ p, out = some p ∧ s'.Plans s'.table.current p := by
  unfold declareSignature
  refine .symbol ?_
  rw [ho.members]
  refine within_reports (Q := fun s' out => ∃ p, out = some p ∧ s'.Plans s.table.current p)
    h ho.parent f.head.pos none (fun hinside => ?_)
    fun s' out _ _ ⟨p, heq, hq⟩ => ⟨p, heq, hq.mono (s'.advances_left _)⟩
  refine (reports_lift (signature_ends hinside hat)).bind fun out s' h' ha hout => ?_
  obtain ⟨sig, faults⟩ := out
  have ho' : s'.table.Opens s.table.current .function id m :=
    Table.Opens.grows (show (s.inside m).table.Opens _ _ _ _ from ho) ha.table
  refine .report h' hout.2 ?_
  refine (retype_reports h' ho'.kind_eq rfl hout.1.whole).bind fun _ s'' h'' ha' _ => .pure h'' ?_
  exact ⟨_, rfl, ⟨m, ho'.grows ha'.table⟩, hout.1.mono ha'.advances⟩

/-- Without errors the functions have distinct names that were free, and a plan each. -/
theorem declareMethods_reports {home : Nat} (hhome : home < s.table.scopes.size)
    (hat : Function.AllPlaced A functions) :
    Yields A P s (declareMethods home functions) (fun s' plans => s'.AllPlan s'.table.current plans)
      fun _ plans => Function.AllPlanned functions plans ∧ (functions.map Function.name).Nodup ∧
        ∀ f ∈ functions, ¬ s.table.Has home f.name := by
  induction functions generalizing s with
  | nil => exact .pure h (fun o ho => by cases ho) ⟨.nil, nodup_nil, by simp⟩
  | cons f rest ih =>
    have hf := hat.1.head_placed
    -- the functions behind the first, whether or not that one has a plan
    have hrest : ∀ {s' : Store} {plan : Option FunctionPlan}, s'.Good → s.Reaches P s' →
        (∀ p, plan = some p → s'.Plans s'.table.current p) → Yields A P s' (do
          let plans ← declareMethods home rest
          return plan :: plans) (fun s' plans => s'.AllPlan s'.table.current plans) fun _ plans =>
            ∃ ps, plans = plan :: ps ∧ Function.AllPlanned rest ps ∧
              (rest.map Function.name).Nodup ∧
              ∀ f ∈ rest, ¬ s'.table.Has home f.name := by
      intro s' plan h' ha hplan
      refine (ih h' (hhome.trans_le ha.table.scopes_le) hat.2).bind
        fun plans s'' h'' ha' hplans => ?_
      refine .pure h'' (fun o ho p hp => ?_) fun hrest => ⟨plans, rfl, hrest⟩
      rcases mem_cons.mp ho with rfl | ho
      · rw [ha'.current]
        exact (hplan p hp).mono ha'.advances
      · exact hplans o ho p hp
    rw [declareMethods]
    refine (declareFunction_reports h hf hhome).bind fun out s' h' ha hout => ?_
    cases out with
    | none =>
      exact (hrest h' ha fun p heq => by cases heq).imp (fun _ _ _ _ hq => hq) fun _ _ _ hout =>
        absurd rfl hout.1
    | some id =>
      obtain ⟨m, -, ho⟩ := hout.1 id rfl
      refine (declareSignature_reports h' ho hf).then fun _ s'' h'' ha' ⟨p, heq, hp⟩ => ?_
      have hr := ha.trans ha'
      refine (hrest h'' hr fun q hq => some.inj (heq.symm.trans hq) ▸ hp).imp
        (fun _ _ _ _ hq => hq) ?_
      rintro _ _ ⟨ps, rfl, hps, hnodup, hfree⟩ ⟨-, hname⟩
      refine ⟨.cons ⟨p, heq⟩ hps, nodup_cons.mpr ⟨fun hmem => ?_, hnodup⟩, forall_mem_cons.mpr
        ⟨hname, fun g hg hhas => hfree g hg (hhas.grows hr.table)⟩⟩
      -- a later function of the same name would have found it taken
      obtain ⟨g, hg, hname⟩ := mem_map.mp hmem
      exact hfree g hg (hname ▸ ⟨id, (hout.2 id rfl).grows ha'.table⟩)

/-- The functions of a class or trait, in its scope. -/
theorem declareMembers_reports (hk : kind ≠ .function)
    (ho : s.table.Opens s.table.current kind id m)
    (pos : Position) (hat : Function.AllPlaced A functions) :
    Yields A P s (declareMembers id pos functions)
      (fun s' plan => plan.Stands s' s'.table.current) fun _ plan =>
      ∃ id plans, plan = .methods id plans ∧ Function.AllPlanned functions plans := by
  unfold declareMembers
  refine .symbol ?_
  rw [ho.members]
  have hwithin : Yields A P s (within (some m) pos [] (declareMethods m functions)) (fun s' plans =>
      s'.AllPlan m plans) fun _ => Function.AllPlanned functions := by
    refine within_yields h ho.parent pos []
      (fun hinside => (declareMethods_reports hinside ho.lt hat).imp
      (fun _ _ _ _ hq => hq) fun _ _ hr => hr.1) fun s' plans _ ha hq => ?_
    rw [ha.current] at hq
    exact hq.mono (s'.advances_left _)
  refine hwithin.bind fun plans s' h' ha hq => .pure h' ?_ fun hplans => ⟨id, plans, rfl, hplans⟩
  rw [Plan.Stands, ha.current]
  exact ⟨kind, m, hk, ho.grows ha.table, hq⟩

/-! ## Fields and variants -/

theorem declareFields_reports (ho : s.table.Opens s.table.current kind id m) (pos : Position)
    {fields : List FieldDecl} (hat : ∀ f ∈ fields, f.Placed A) :
    RunsUnder A P s (declareFields id pos fields) := by
  unfold declareFields
  refine .symbol ?_
  rw [ho.members]
  refine within_reports h ho.parent pos () (forM_reports · fun f hf s' h' _ => ?_)
    fun _ _ _ _ hq => hq
  refine (reports_lift (convertTyped_ends h' (hat f hf).type)).bind fun t s'' h'' _ ht =>
    .reported h'' ht ?_
  exact (declareTyped_reports h'' (hat f hf).label.pos rfl
    (fun t heq => some.inj heq ▸ ht.holds) false
    f.isPublic).discard

/-- Each variant has the type of the enumeration, or of a function to it from its payload. -/
theorem declareVariants_reports (ho : s.table.Opens s.table.current kind id m) {d : EnumDecl}
    (hat : d.Placed A) : RunsUnder A P s (declareVariants id d) := by
  unfold declareVariants
  refine .symbol ?_
  rw [ho.members]
  have henum : s.Holds ((s.table.symbol id).type.getD .invalid) := by
    obtain ⟨y, hy, -⟩ := ho
    rw [Table.symbol_of_get? hy]
    cases htype : y.type with
    | none => exact h.registry.basic .invalid
    | some t => exact (h.typed hy).holds t htype
  refine within_reports h ho.parent _ () (forM_reports · fun v hmem s' h' ha => ?_)
    fun _ _ _ _ hq => hq
  have hv := hat.variants v hmem
  have henum : s'.Holds ((s.table.symbol id).type.getD .invalid) := ha.holds henum
  -- a variant is declared with whatever type it is given
  have hdeclare : ∀ {P : Int → Prop} {s' : Store} {type : Ty}, s'.Good → s'.Holds type →
      RunsUnder A P s' (discard (declareTyped v.label .variant (some type) false v.isPublic)) := by
    intro P s' type h' ht
    exact (declareTyped_reports h' hv.label.pos rfl (fun t heq => some.inj heq ▸ ht) false
      v.isPublic).discard
  split
  · exact hdeclare h' henum
  next t hpayload =>
    refine (reports_lift (convertTyped_ends h' (hv.payload t hpayload))).bind
      fun t s'' h'' ha' ht => ?_
    refine .reported h'' ht ?_
    -- with a payload it is a function from the payload to the enumeration
    have hparts : ∀ u ∈ (Ty.func [t.type] ((s.table.symbol id).type.getD .invalid)).parts,
        s''.Holds u := by
      intro u hu
      rcases mem_append.mp hu with hu | hu
      · exact mem_singleton.mp hu ▸ ht.holds
      · exact mem_singleton.mp hu ▸ ha'.holds henum
    exact (reports_lift (register_ends h'' (by simp) hparts)).bind fun type s₃ h₃ _ htype =>
      hdeclare h₃ htype

/-! ## Implementations -/

/-- Wherever a type has its members, that scope exists. -/
theorem owner?_ends {ρ : Rights} {t : Ty} (ht : s.Holds t) : Ends ρ s (owner? t) fun s' owner =>
      ∀ m, owner.bind (·.members) = some m → m < s'.table.scopes.size := by
  unfold owner?
  refine (resolve_ends h ht).bind fun u s' h' _ _ => ?_
  split
  · refine .get (.pure h' fun m hm => ?_)
    obtain ⟨y, hy, hm⟩ := bind_eq_some_iff.mp hm
    obtain ⟨id, -, rfl⟩ := map_eq_some_iff.mp hy
    rcases hget : s'.table.symbols[id]? with _ | y
    · rw [Table.symbol, Array.getD_eq_getD_getElem?, hget] at hm
      cases hm
    · rw [Table.symbol_of_get? hget] at hm
      obtain ⟨x, hx, -⟩ := (h'.table.links hget).members_scope m hm
      exact lt_of_get? hx
  · exact .pure h' fun m hm => by cases hm

/-- The functions of an implementation are declared in the scope of the type, or in its own if it is
one of a trait. -/
theorem implement_reports (hd : d.Placed A) (hat : Function.AllPlaced A functions)
    (ho : s.table.Opens c .implementation id m) (hm : m = s.table.current) :
    Yields A P s (implement d functions id m)
      (fun s' out => s'.Holds out.1 ∧ s'.AllPlan m out.2) fun _ out =>
        Function.AllPlanned functions out.2 ∧
        (d.trait.isSome = true → ("Self" :: functions.map Function.name).Nodup) := by
  unfold implement
  refine (reports_lift (convertTyped_ends h hd.target)).then fun t s' h' ha ht => ?_
  refine (reported_reports h' ht).then fun _ _ _ _ ⟨heq, htype, _⟩ => ?_
  subst heq htype
  refine (retype_reports h' (ho.grows ha.table).kind_eq rfl ht.holds).then fun _ s'' h'' ha' _ => ?_
  have htarget := ha'.holds ht.holds
  have hself : A.covers (⟨"Self", d.pos⟩ : Label).pos := hd.pos
  -- `Self` is declared first, so that no function of a trait's implementation can have this name
  have hdeclared :
    Yields A P s'' (discard (declareTyped ⟨"Self", d.pos⟩ .generic (some t.type) false false))
      (fun _ _ => True) fun s₃ _ => s₃.table.Has s₃.table.current "Self" := by
    refine (declareTyped_reports h'' hself rfl
      (fun t heq => some.inj heq ▸ htarget) false false).bind
      fun out s₃ h₃ _ hout => .pure h₃ trivial fun hne => ?_
    obtain ⟨i, hi⟩ := ne_none_iff_exists'.mp hne
    exact ⟨i, (hout i hi).bears⟩
  refine hdeclared.bind fun _ s₃ h₃ ha₃ _ => ?_
  have htarget := ha₃.holds htarget
  have hall := (ha.trans ha').trans ha₃
  -- the functions go to the scope `home`, which depends on whether a trait is implemented
  have hmethods : ∀ {s₄ : Store} {home : Nat}, s₄.Good → s₃.Reaches P s₄ →
      home < s₄.table.scopes.size → Yields A P s₄ (do
        let plans ← declareMethods home functions
        return (t.type, plans)) (fun s' out => s'.Holds out.1 ∧ s'.AllPlan m out.2) fun _ out =>
          Function.AllPlanned functions out.2 ∧ (functions.map Function.name).Nodup ∧
            ∀ f ∈ functions, ¬ s₄.table.Has home f.name := by
    intro s₄ home h₄ ha₄ hhome
    refine (declareMethods_reports h₄ hhome hat).bind fun plans s₅ h₅ ha₅ hplans => ?_
    refine .pure h₅ ⟨ha₅.holds (ha₄.holds htarget), ?_⟩ fun hr => hr
    rwa [hm, ← hall.current, ← ha₄.current, ← ha₅.current]
  have hscope : m < s₃.table.scopes.size := ho.lt.trans_le hall.table.scopes_le
  split
  · refine (hmethods h₃ (.refl s₃) hscope).imp (fun _ _ _ _ hq => hq) fun _ out hr hhas =>
      ⟨hr.1, fun _ => nodup_cons.mpr ⟨fun hmem => ?_, hr.2.1⟩⟩
    obtain ⟨f, hf, hname⟩ := mem_map.mp hmem
    rw [hall.current, ← hm, ← hname] at hhas
    exact hr.2.2 f hf hhas
  · next htrait =>
    refine (reports_lift (owner?_ends h₃ htarget)).then fun owner s₄ h₄ ha₄ howner => ?_
    refine (hmethods h₄ ha₄ ?_).imp (fun _ _ _ _ hq => hq) fun _ out hr _ =>
      ⟨hr.1, by simp [htrait]⟩
    -- a type without an owner has no members, and the functions stay where they are
    cases hmembers : owner.bind (·.members) with
    | none => exact hscope.trans_le ha₄.table.scopes_le
    | some home => exact howner home hmembers

/-- An implementation is declared under its position, with a scope of its own. -/
theorem declareImplementation_reports (hd : d.Placed A) (hat : Function.AllPlaced A functions) :
    Yields A P s (declareImplementation d functions)
      (fun s' plan => plan.Stands s' s'.table.current) fun _ =>
      (Item.implementation d functions).Suits := by
  unfold declareImplementation
  refine (reports_lift (declare_ends h _ (fun _ => rfl) hd.pos)).then fun out s' h' _ hout => ?_
  cases out with
  | error fault => exact .error h' (hout hd.pos) (fault.not_warning _) (by simp)
  | ok id =>
    obtain ⟨y, hk, ho⟩ := Store.New.openable hout fun hk => by cases hk
    have hdescends := Store.descends_membersOpened h' ho
    have hopens := Store.opens_membersOpened ho
    rw [hk] at hopens
    refine Yields.scoped (g := fun out => Plan.implementation s'.table.scopes.size out.1 out.2)
      hdescends (·.enters_membersOpened ho)
        (fun log hp => ?_) (implement_reports hdescends.good hd hat hopens rfl)
      (fun s'' out _ ha hq => ?_) fun _ hr => ⟨_, _, _, rfl, hr⟩
    · let out := ((implement d functions id s'.table.scopes.size).run log).run
        (s'.membersOpened id (SymbolKind.body .implementation))
      show ((Plan.implementation s'.table.scopes.size out.1.1.1 out.1.1.2,
        (((exitScope d.pos).run out.1.2).run out.2).1.2),
        (((exitScope d.pos).run out.1.2).run out.2).2) = _
      rw [exitScope_run hp]
    · rw [Plan.Stands]
      have hleft := s''.advances_left s'.table.current
      exact ⟨⟨id, (hopens.grows ha.table).grows hleft.table⟩, hleft.registry.holds hq.1,
        hq.2.mono hleft⟩

end

/-! ## Items -/

mutual

/-- **The second pass** over one item, by induction on the item: from its sketch to its plan. -/
theorem declareItem_reports (i : Item) (hi : i.Placed A) {P : Int → Prop} {s : Store} (h : s.Good)
    {sketch : Sketch} (hs : i.Sketched s.table s.table.current sketch) :
    Yields A P s (declareItem i sketch)
      (fun s' plan => plan.Stands s' s'.table.current) fun _ plan =>
      i.Drafted sketch → i.Suits plan := by
  match i with
  -- each item goes with a sketch of its own shape; for any other sketch there is nothing to do
  | .letVar d =>
    rw [declareItem]
    exact (declareValue_reports h hi.label.pos rfl hi.type d.mutable false).yields
      fun _ _ _ _ hq => ⟨hq, by simp⟩
  | .constant d =>
    rw [declareItem]
    exact (declareValue_reports h hi.head.label.pos rfl hi.type false d.head.isPublic).yields
      fun _ _ _ _ hq => ⟨hq, by simp⟩
  | .function f =>
    cases sketch with
    | symbol id =>
      obtain ⟨m, ho⟩ := hs
      rw [declareItem]
      refine (declareSignature_reports h ho hi.head_placed).then fun _ s' h' _ ⟨p, heq, hp⟩ => ?_
      subst heq
      refine .pure h' ?_ fun _ => ⟨p, rfl⟩
      rw [Plan.Stands]
      exact hp
    | _ => exact .pure h (by simp) (by simp)
  | .structType d =>
    cases sketch with
    | symbol id =>
      obtain ⟨kind, m, -, ho⟩ := hs
      rw [declareItem]
      exact (declareFields_reports h ho _ hi.fields).then fun _ s' h' _ _ =>
        .pure h' (by simp) (by simp)
    | _ => exact .pure h (by simp) (by simp)
  | .classType d functions =>
    cases sketch with
    | symbol id =>
      obtain ⟨kind, m, hk, ho⟩ := hs
      rw [declareItem]
      refine (declareFields_reports h ho _ hi.1.fields).then fun _ s' h' ha _ => ?_
      have ho' := ho.grows ha.table
      rw [← ha.current] at ho'
      exact (declareMembers_reports h' hk ho' _ hi.2).imp (fun _ _ _ _ hq => hq) fun _ _ hr _ => hr
    | _ => exact .pure h (by simp) (by simp)
  | .enumType d =>
    cases sketch with
    | symbol id =>
      obtain ⟨kind, m, -, ho⟩ := hs
      rw [declareItem]
      exact (declareVariants_reports h ho hi).then fun _ s' h' _ _ => .pure h' (by simp) (by simp)
    | _ => exact .pure h (by simp) (by simp)
  | .traitType d functions =>
    cases sketch with
    | symbol id =>
      obtain ⟨kind, m, hk, ho⟩ := hs
      rw [declareItem]
      exact (declareMembers_reports h hk ho _ hi.2).imp (fun _ _ _ _ hq => hq) fun _ _ hr _ => hr
    | _ => exact .pure h (by simp) (by simp)
  | .implementation d functions =>
    rw [declareItem]
    exact (declareImplementation_reports h hi.1 hi.2).imp (fun _ _ _ _ hq => hq) fun _ _ hr _ => hr
  | .moduleBlock d body =>
    cases sketch with
    | moduleBody id sketches =>
      obtain ⟨m, ho, hbody⟩ := hs
      rw [declareItem]
      refine .symbol ?_
      rw [ho.members]
      -- the sketches were made for the scope of the module, which is entered again
      have hbody : Item.AllSketched (s.inside m).table m body sketches :=
        Item.AllSketched.grows (s.table.grows_goto m) body hbody
      have hwithin : Yields A P s (within (some m) d.pos [] (declareItems body sketches))
          (fun s' plans => Plan.AllStand s' m plans) fun _ plans =>
            Item.AllDrafted body sketches → Item.AllSuit body plans := by
        refine within_yields h ho.parent d.pos [] (declareItems_reports body hi.2 · hbody)
          fun s' plans _ ha hq => ?_
        rw [ha.current] at hq
        exact Plan.AllStand.mono (s'.advances_left _) plans hq
      refine hwithin.bind fun plans s' h' ha hq => .pure h' ?_ ?_
      · rw [Plan.Stands, ha.current]
        exact ⟨m, ho.grows ha.table, hq⟩
      · rintro hr ⟨_, _, heq, hall⟩
        cases heq
        exact ⟨id, plans, rfl, hr hall⟩
    | _ => exact .pure h (by simp) (by simp)
  | .bad .. | .use _ | .expression _ | .returnWith .. | .ifElse .. | .whileLoop .. | .forEach ..
  | .loop .. | .breakLoop _ | .continueLoop _ | .matchOn .. | .block .. =>
    exact .pure h (by simp) (by simp)

/-- So it is for items one after the other. -/
theorem declareItems_reports (items : List Item) (hitems : Item.AllPlaced A items) {P : Int → Prop}
    {s : Store} (h : s.Good) {sketches : List Sketch}
    (hs : Item.AllSketched s.table s.table.current items sketches) :
    Yields A P s (declareItems items sketches)
      (fun s' plans => Plan.AllStand s' s'.table.current plans)
      fun _ plans => Item.AllDrafted items sketches → Item.AllSuit items plans := by
  match items with
  | [] =>
    rw [declareItems]
    exact .pure h (by simp) (by simp)
  | i :: rest =>
    rw [declareItems]
    refine (declareItem_reports i hitems.1 h hs.1).bind fun plan s' h' ha hplan => ?_
    have hrest := Item.AllSketched.grows ha.table rest hs.2
    rw [← ha.current] at hrest
    refine (declareItems_reports rest hitems.2 h' hrest).bind
      fun plans s'' h'' ha' hplans => .pure h'' ?_
      fun hr hi hd => ⟨hi hd.1, hr hd.2⟩
    rw [Plan.AllStand]
    refine ⟨?_, hplans⟩
    rw [ha'.current]
    exact Plan.Stands.mono ha'.advances plan hplan

end

end

end Analysis

end UnitCheck
