import UnitCheck.Analysis.Declare
import UnitCheck.Analysis.Imports
import UnitCheck.Proofs.Scoping.Renaming

/-!
# Passes up to a renaming of symbols

Passes look at symbols through names and ids that they are handed, so they do the same on stores
whose symbols have other ids. `Store.Renamed` relates such stores; each function of the passes that
declare names and types is gone through once, and `collectItem_mirrors` and `declareItem_mirrors`
sum it up. -/

namespace UnitCheck

open Checking Table List

/-- Stores with the same types, whose tables are the same up to a renaming. -/
structure Store.Renamed (σ : Equiv.Perm Nat) (P : ImportsRel) (s s' : Store) :
    Prop where
  table : s.table.Renamed σ P s'.table
  registry : s'.registry = s.registry
  nominal : s'.nominal = s.nominal.map fun e => (e.1, σ e.2)

/-- Items other than uses and modules. -/
def Item.isPlain : Item → Bool
  | .use _ | .moduleBlock .. => false
  | _ => true

mutual

/-- A sketch of the same item under other ids. -/
def Sketch.renamed (σ : Equiv.Perm Nat) : Sketch → Sketch
  | .none => .none
  | .symbol id => .symbol (σ id)
  | .moduleBody id body => .moduleBody (σ id) (Sketch.renamedAll σ body)

def Sketch.renamedAll (σ : Equiv.Perm Nat) : List Sketch → List Sketch
  | [] => []
  | s :: rest => s.renamed σ :: Sketch.renamedAll σ rest

end

theorem Sketch.headD_renamedAll (σ : Equiv.Perm Nat) (sketches : List Sketch) :
    (Sketch.renamedAll σ sketches).headD .none = (sketches.headD .none).renamed σ := by
  cases sketches <;> simp [Sketch.renamedAll, Sketch.renamed]

theorem Sketch.tail_renamedAll (σ : Equiv.Perm Nat) (sketches : List Sketch) :
    (Sketch.renamedAll σ sketches).tail = Sketch.renamedAll σ sketches.tail := by
  cases sketches <;> simp [Sketch.renamedAll]

namespace Checking

variable {α β : Type} {σ : Equiv.Perm Nat} {P : ImportsRel}
  {R : α → β → Prop} {id id' : Nat}

/-- Two computations do the same on stores that differ by the renaming. -/
abbrev Renames (σ : Equiv.Perm Nat) (P : ImportsRel) (R : α → β → Prop)
    (m : CheckM α) (m' : CheckM β) : Prop :=
  Mirrors (Store.Renamed σ P) R m m'

/-- Symbols that differ in ids alone. -/
abbrev SameFace (y y' : Symbol) : Prop := y'.face = y.face

theorem onTable_mirrors {m : TableM α} {m' : TableM β} (hm : Mirrors (Table.Renamed σ P) R m m') :
    Renames σ P R (onTable m) (onTable m') := by
  intro s s' h
  obtain ⟨hr, ht⟩ := hm h.table
  exact ⟨hr, ht, h.registry, h.nominal⟩

theorem onRegistry_mirrors (x : RegistryM α) :
    Renames σ P (fun a b => b = a) (onRegistry x) (onRegistry x) := by
  intro s s' h
  have hrun : x.run s'.registry = x.run s.registry := by rw [h.registry]
  exact ⟨(congrArg Prod.fst hrun :), h.table, (congrArg Prod.snd hrun :), h.nominal⟩

theorem register_mirrors (t : Ty) : Renames σ P (fun a b => b = a) (register t) (register t) :=
  onRegistry_mirrors _

theorem symbol_mirrors (hid : Follows σ id id') :
    Renames σ P SameFace (symbol id) (symbol id') := by
  intro s s' h
  obtain rfl := hid
  exact ⟨h.table.symbol_face id, h⟩

theorem useSymbol_mirrors (hid : Follows σ id id') :
    Renames σ P SameFace (useSymbol id) (useSymbol id') := by
  intro s s' h
  obtain rfl := hid
  have hmarked := h.table.markUsed id
  exact ⟨hmarked.target_face id, hmarked, h.registry, h.nominal⟩

theorem resolvePath_mirrors (path : List String) (pos : Position) :
    Renames σ P (Matches (Follows σ)) (resolvePath path pos) (resolvePath path pos) :=
  fun _ _ h => ⟨(h.table.resolve_matches path).mapError _ _, h⟩

theorem updateSymbol_mirrors (hid : Follows σ id id') {f : Symbol → Symbol}
    (hf : ∀ y, f (y.renamed σ) = (f y).renamed σ)
    (hkeeps : ∀ y, (f y).members = y.members ∧ (f y).aliasOf = y.aliasOf) :
    Renames σ P (fun _ _ => True) (updateSymbol id f) (updateSymbol id' f) :=
  onTable_mirrors (Table.updateSymbol_mirrors hid hf hkeeps)

theorem leave_mirrors : Renames σ P (Matches fun _ _ => True) leave leave := by
  refine (onTable_mirrors exit_mirrors).bind fun a b hab => ?_
  cases hab with
  | error => exact .pure .error
  | ok h =>
    intro s s' hs
    exact ⟨.ok trivial, hs.table, hs.registry, hs.nominal⟩

theorem keep_mirrors (name : String) (mutable initialized : Bool) :
    Renames σ P (fun _ _ => True) (keep id name mutable initialized)
      (keep id' name mutable initialized) :=
  fun _ _ h => ⟨trivial, h.table, h.registry, h.nominal⟩

/-! ## Annotations -/

theorem nominalType_mirrors {y y' : Symbol} (hy : SameFace y y') (args : List Ty) (pos : Position) :
    Renames σ P (Matches fun a b => b = a) (nominalType y args pos) (nominalType y' args pos) := by
  unfold nominalType
  rw [Symbol.type_of_face hy, Symbol.generics_of_face hy]
  cases y.type with
  | none => exact .pure .error
  | some type =>
    dsimp only
    split
    · exact .pure (.ok rfl)
    split
    · exact .pure .error
    split
    · exact (register_mirrors _).bind fun _ _ h => .pure (.ok h)
    · exact .pure .error

/-- A named type does not depend on the ids of symbols: named types are told apart by name. -/
theorem namedType_mirrors (path : List String) (args : List Ty) (pos : Position) :
    Renames σ P (Matches fun a b => b = a) (namedType path args pos) (namedType path args pos) := by
  unfold namedType
  refine (resolvePath_mirrors path pos).bind fun a b hab => ?_
  cases hab with
  | error => exact .pure .error
  | ok hid =>
    refine (useSymbol_mirrors hid).bind fun y y' hy => ?_
    rw [Symbol.kind_of_face hy, Symbol.type_of_face hy]
    split
    · split
      · exact .pure (.ok rfl)
      · exact .pure .error
    · exact nominalType_mirrors hy args pos
    · exact nominalType_mirrors hy args pos
    · exact nominalType_mirrors hy args pos
    · exact .pure .error

/-- A conversion on related stores gives the same, or fails. -/
def Converts {α : Type} (σ : Equiv.Perm Nat) (P : ImportsRel)
    (x : ExceptT Diagnostic CheckM α) : Prop :=
  Renames σ P (Matches fun a b => b = a) x.run x.run

section

variable {α β : Type}

theorem Converts.bind {x : ExceptT Diagnostic CheckM α} {f : α → ExceptT Diagnostic CheckM β}
    (hx : Converts σ P x) (hf : ∀ a, Converts σ P (f a)) : Converts σ P (x >>= f) := by
  show Mirrors _ _ (x.run >>= ExceptT.bindCont f) (x.run >>= ExceptT.bindCont f)
  refine Mirrors.bind hx fun a b hab => ?_
  cases hab with
  | error => exact .pure .error
  | ok h =>
    obtain rfl := h
    exact hf _

theorem Converts.pure (a : α) : Converts σ P (pure a) := Mirrors.pure (.ok rfl)

theorem Converts.throw (d : Diagnostic) : Converts (α := α) σ P (throw d) := Mirrors.pure .error

theorem Converts.register (t : Ty) :
    Converts σ P (liftM (converter.register t) : ExceptT Diagnostic CheckM Ty) := by
  intro s s' h
  obtain ⟨hr, h'⟩ := register_mirrors (σ := σ) (P := P) t h
  exact ⟨.ok hr, h'⟩

end

theorem convertName_converts (path : List String) (args : List Ty) (pos : Position) :
    Converts σ P (TypeExpr.convertName converter path args pos) := by
  unfold TypeExpr.convertName
  split
  · split
    · split
      · exact .pure _
      · exact .throw _
    · exact namedType_mirrors _ args pos
  · exact namedType_mirrors _ args pos

mutual

/-- Nor does any annotation. -/
theorem convert_converts (e : TypeExpr) : Converts σ P (e.convert converter) := by
  match e with
  | .named path args pos =>
    rw [TypeExpr.convert]
    split
    · exact .throw _
    · exact (convertAll_converts args).bind fun ts => convertName_converts path ts pos
  | .array elem length pos =>
    rw [TypeExpr.convert]
    refine (convert_converts elem).bind fun t => ?_
    split
    · exact .register _
    · split
      · exact .throw _
      · exact .register _
  | .tuple elems pos =>
    rw [TypeExpr.convert]
    exact (convertAll_converts elems).bind fun ts => .register _
  | .func params result pos =>
    rw [TypeExpr.convert]
    exact (convertAll_converts params).bind fun ps =>
      (convertResult_converts result).bind fun t => .register _
  | .ref inner m l pos =>
    rw [TypeExpr.convert]
    exact (convert_converts inner).bind fun t => .register _

theorem convertAll_converts (es : List TypeExpr) :
    Converts σ P (TypeExpr.convertAll converter es) := by
  match es with
  | [] =>
    rw [TypeExpr.convertAll]
    exact .pure _
  | e :: es =>
    rw [TypeExpr.convertAll]
    exact (convert_converts e).bind fun t => (convertAll_converts es).bind fun ts => .pure _

theorem convertResult_converts (e : Option TypeExpr) :
    Converts σ P (TypeExpr.convertResult converter e) := by
  match e with
  | none =>
    rw [TypeExpr.convertResult]
    exact .pure _
  | some e =>
    rw [TypeExpr.convertResult]
    exact convert_converts e

end

/-- Types that are the same, whatever is wrong with them. -/
abbrev SameType (t t' : Typed) : Prop := t'.type = t.type

theorem convertTyped_mirrors (e : TypeExpr) :
    Renames σ P SameType (convertTyped e) (convertTyped e) := by
  unfold convertTyped
  refine Mirrors.bind (convert_converts e) fun a b hab => ?_
  cases hab with
  | error => exact .pure rfl
  | ok h => exact .pure h

theorem paramType_mirrors (owner : String) (p : Param) :
    Renames σ P SameType (paramType owner p) (paramType owner p) := by
  unfold paramType
  split
  · exact convertTyped_mirrors _
  · exact .pure rfl

theorem mapM_paramType_mirrors (owner : String) (ps : List Param) :
    Renames σ P (fun ts ts' => ts'.map (·.type) = ts.map (·.type))
      (ps.mapM (paramType owner)) (ps.mapM (paramType owner)) := by
  induction ps with
  | nil => exact .pure rfl
  | cons p rest ih =>
    simp only [mapM_cons]
    refine (paramType_mirrors owner p).bind fun t t' ht => ?_
    refine ih.bind fun ts ts' hts => .pure ?_
    rw [map_cons, map_cons, ht, hts]

theorem signature_mirrors (f : FunctionHead) :
    Renames σ P (fun a b => b.1 = a.1) (signature f) (signature f) := by
  unfold signature
  refine (mapM_paramType_mirrors _ f.params).bind fun ts ts' hts => ?_
  have hregister : ∀ (sig : Signature) (ds ds' : List Diagnostic),
    Renames σ P (fun a b => b.1 = a.1)
        (do discard (register sig.type); return (sig, ds) : CheckM (Signature × List Diagnostic))
        (do discard (register sig.type); return (sig, ds')) :=
    fun sig ds ds' => (register_mirrors sig.type).bind fun _ _ _ => .pure rfl
  dsimp only
  rw [hts]
  cases f.result with
  | none => exact hregister _ _ _
  | some t =>
    refine (convertTyped_mirrors t).bind fun a b hab => ?_
    rw [hab]
    exact hregister _ _ _

end Checking

namespace Analysis

variable {α β : Type} {σ : Equiv.Perm Nat} {P : ImportsRel}
  {R : α → β → Prop} {id id' : Nat}

/-- The same of passes. -/
abbrev Renames (σ : Equiv.Perm Nat) (P : ImportsRel) (R : α → β → Prop)
    (m : AnalysisM α) (m' : AnalysisM β) : Prop :=
  Mirrors (Store.Renamed σ P) R m m'

abbrev Repeats (σ : Equiv.Perm Nat) (P : ImportsRel) (m : AnalysisM α)
    (m' : AnalysisM β) : Prop :=
  Renames σ P (fun _ _ => True) m m'

/-! ## Scopes -/

theorem exitScope_mirrors (pos : Position) : Repeats σ P (exitScope pos) (exitScope pos) := by
  refine (Mirrors.lift leave_mirrors).bind fun a b hab => ?_
  cases hab with
  | error => exact report_mirrors _ _
  | ok _ => exact .pure trivial

theorem within_mirrors (scope : Option Nat) (pos : Position) {fallback : α} {fallback' : β}
    (hfallback : R fallback fallback') {act : AnalysisM α} {act' : AnalysisM β}
    (hact : Renames σ P R act act') : Renames σ P R (within scope pos fallback act)
      (within scope pos fallback' act') := by
  unfold within
  refine (Mirrors.lift (onTable_mirrors (reenter_mirrors _))).bind fun a b hab => ?_
  cases hab with
  | error => exact report_pure_mirrors hfallback _ _
  | ok _ => exact hact.bind fun a b h => (exitScope_mirrors pos).bind fun _ _ _ => .pure h

/-- A new scope becomes that of a symbol's members. -/
theorem attach_mirrors (hid : Follows σ id id') {scope : Nat} (hscope : scope ≠ 0) :
    Checking.Renames σ P (fun _ _ => True)
      (onTable (modify fun t =>
        (t.updateSymbol id fun s => { s with members := some scope }).updateScope
        scope fun s => { s with owner := some id }))
      (onTable (modify fun t =>
        (t.updateSymbol id' fun s => { s with members := some scope }).updateScope
        scope fun s => { s with owner := some id' })) := by
  refine onTable_mirrors fun t t' h => ⟨trivial, ?_⟩
  obtain rfl := hid
  have hmembers := h.updateSymbol id (f := fun s => { s with members := some scope })
    (g := fun s => { s with members := some scope }) (fun _ => rfl) (fun _ _ => by simp [hscope])
    fun _ h => h
  exact hmembers.updateScope scope fun _ _ hss hp => ⟨⟨hss.id_eq, hss.parent_eq, hss.lookup_eq⟩, hp⟩

theorem openMembers_mirrors (hid : Follows σ id id') (kind : ScopeKind) (pos : Position)
    {act act' : AnalysisM Unit} (hact : Repeats σ P act act') :
    Repeats σ P (openMembers id kind pos act)
      (openMembers id' kind pos act') := by
  unfold openMembers
  refine (Mirrors.lift (onTable_mirrors (enter_mirrors kind))).bind fun scope scope' hscope => ?_
  obtain ⟨rfl, hne⟩ := hscope
  refine (Mirrors.lift (attach_mirrors hid hne)).bind fun _ _ _ => ?_
  exact hact.bind fun _ _ _ => exitScope_mirrors pos

/-- A symbol is given a type. -/
theorem retype_mirrors (hid : Follows σ id id') (t : Ty) :
    Repeats σ P (liftM (updateSymbol id fun s => { s with type := some t }) : AnalysisM Unit)
      (liftM (updateSymbol id' fun s => { s with type := some t }) : AnalysisM Unit) :=
  .lift (updateSymbol_mirrors hid (fun _ => rfl) fun _ => ⟨rfl, rfl⟩)

/-- An annotation is converted, and its faults reported. -/
theorem converted_mirrors (e : TypeExpr) {f : Ty → AnalysisM α} {f' : Ty → AnalysisM β}
    (hf : ∀ t, Renames σ P R (f t) (f' t)) :
    Renames σ P R (do f (← reported (← convertTyped e))) (do f' (← reported (← convertTyped e))) :=
  (Mirrors.lift (convertTyped_mirrors e)).bind fun _ _ h =>
    (reported_mirrors h).bind fun _ _ h => h ▸ hf _

/-! ## Names -/

theorem collectContainer_mirrors (d : DeclHead) (kind : SymbolKind) (scope : ScopeKind) :
    Renames σ P (Paired (Follows σ)) (collectContainer d kind scope)
      (collectContainer d kind scope) := by
  unfold collectContainer
  refine (Mirrors.lift (onTable_mirrors (declare_mirrors _ kind _))).bind fun a b hab => ?_
  cases hab with
  | error => exact report_pure_mirrors .none _ _
  | ok hid =>
    refine (Mirrors.lift (updateSymbol_mirrors hid (f := fun s => { s with isPublic := d.isPublic })
      (fun _ => rfl) fun _ => ⟨rfl, rfl⟩)).bind fun _ _ _ => ?_
    exact (openMembers_mirrors hid scope _ (.pure trivial)).bind fun _ _ _ => .pure (.some hid)

theorem collectTypeParams_mirrors (hid : Follows σ id id') (scope : Nat) (params : List Label) :
    Repeats σ P (collectTypeParams id scope params) (collectTypeParams id' scope params) := by
  induction params with
  | nil => exact .pure trivial
  | cons p rest ih =>
    rw [collectTypeParams, collectTypeParams]
    refine (Mirrors.lift (onTable_mirrors (declareIn_mirrors scope p.text .generic p.pos))).bind
      fun a b hab => ?_
    cases hab with
    | error => exact (report_mirrors _ _).bind fun _ _ _ => ih
    | ok hparam =>
      refine (Mirrors.lift (onRegistry_mirrors _)).bind fun v v' hv => ?_
      obtain rfl := hv
      refine (retype_mirrors hparam _).bind fun _ _ _ => ?_
      refine (Mirrors.lift (updateSymbol_mirrors hid
        (f := fun s => { s with generics := s.generics ++ [v'] }) (fun _ => rfl) fun _ =>
          ⟨rfl, rfl⟩)).bind
        fun _ _ _ => ?_
      exact ih

theorem functionTypeParams_mirrors (hid : Follows σ id id') (params : List Label) :
    Repeats σ P (functionTypeParams id params) (functionTypeParams id' params) := by
  induction params with
  | nil => exact .pure trivial
  | cons p rest ih =>
    rw [functionTypeParams, functionTypeParams]
    refine (Mirrors.lift (onRegistry_mirrors _)).bind fun v v' hv => ?_
    obtain rfl := hv
    refine (Mirrors.lift
      (onTable_mirrors (declareTyped_mirrors p.text .generic p.pos _ false))).bind
      fun a b hab => ?_
    cases hab with
    | error => exact (report_mirrors _ _).bind fun _ _ _ => ih
    | ok _ =>
      refine (Mirrors.lift (updateSymbol_mirrors hid
        (f := fun s => { s with generics := s.generics ++ [v'] }) (fun _ => rfl) fun _ =>
          ⟨rfl, rfl⟩)).bind
        fun _ _ _ => ?_
      exact ih

/-- Sketches of the same item. -/
abbrev SameSketch (σ : Equiv.Perm Nat) (a b : Sketch) : Prop := b = a.renamed σ

/-- Types are collected alike, under symbols that go with each other. -/
theorem collectType_mirrors (path : List String) (d : DeclHead) (kind : SymbolKind)
    (params : List Label) :
    Renames σ P (SameSketch σ) (collectType path d kind params)
      (collectType path d kind params) := by
  unfold collectType
  refine (collectContainer_mirrors d kind .typeBody).bind fun a b hab => ?_
  cases hab with
  | none => exact .pure rfl
  | some hid =>
    refine (Mirrors.lift (symbol_mirrors hid)).bind fun y y' hy => ?_
    rw [Symbol.members_of_face hy]
    refine (collectTypeParams_mirrors hid _ params).bind fun _ _ _ => ?_
    refine (Mirrors.lift (symbol_mirrors hid)).bind fun y y' hy => ?_
    rw [Symbol.generics_of_face hy]
    refine (Mirrors.lift (register_mirrors _)).bind fun t t' ht => ?_
    obtain rfl := ht
    refine (retype_mirrors hid _).bind fun _ _ _ => ?_
    have hnominal : ∀ name a, Repeats σ P
        (modifyThe Store fun s => { s with nominal := (name, a) :: s.nominal } : AnalysisM Unit)
        (modifyThe Store fun s => { s with nominal := (name, σ a) :: s.nominal }) := by
      intro name a log log' s s' h
      refine ⟨trivial, h.table, h.registry, ?_⟩
      show (name, σ a) :: s'.nominal = ((name, a) :: s.nominal).map fun e => (e.1, σ e.2)
      rw [map_cons, h.nominal]
    obtain rfl := hid
    exact (hnominal _ _).bind fun _ _ _ => .pure rfl

theorem collectTrait_mirrors (d : DeclHead) :
    Renames σ P (SameSketch σ) (collectTrait d) (collectTrait d) := by
  unfold collectTrait
  refine (collectContainer_mirrors d .traitType .traitBody).bind fun a b hab => ?_
  cases hab with
  | none => exact .pure rfl
  | some hid =>
    refine (Mirrors.lift (symbol_mirrors hid)).bind fun y y' hy => ?_
    rw [Symbol.members_of_face hy]
    refine (Mirrors.lift (onTable_mirrors (declareIn_mirrors _ "Self" .generic d.label.pos))).bind
      fun a b hab => ?_
    obtain rfl := hid
    cases hab with
    | error => exact (report_mirrors _ _).bind fun _ _ _ => .pure rfl
    | ok hself =>
      refine (Mirrors.lift (onRegistry_mirrors _)).bind fun v v' hv => ?_
      obtain rfl := hv
      refine (retype_mirrors hself _).bind fun _ _ _ => ?_
      exact .pure rfl

/-- Functions are declared alike. -/
theorem declareFunction_mirrors (f : Function) (home : Nat) :
    Renames σ P (Paired (Follows σ)) (declareFunction f home) (declareFunction f home) := by
  unfold declareFunction
  refine (Mirrors.lift (onTable_mirrors (declareIn_mirrors _ _ .function _))).bind fun a b hab => ?_
  cases hab with
  | error => exact report_pure_mirrors .none _ _
  | ok hid =>
    refine (Mirrors.lift (updateSymbol_mirrors hid (f := fun s => { s with
      isPublic := f.head.head.isPublic
      shape := some { params := f.head.params.length, hasBody := f.body.isSome } })
      (fun _ => rfl) fun _ => ⟨rfl, rfl⟩)).bind fun _ _ _ => ?_
    refine (openMembers_mirrors hid .functionBody _ (functionTypeParams_mirrors hid _)).bind
      fun _ _ _ => ?_
    exact .pure (.some hid)

/-! ## Types -/

theorem declareTyped_mirrors (label : Label) (kind : SymbolKind) (type : Option Ty)
    (mutable isPublic : Bool) :
    Renames σ P (Paired (Follows σ)) (declareTyped label kind type mutable isPublic)
      (declareTyped label kind type mutable isPublic) := by
  unfold declareTyped
  refine (Mirrors.lift (onTable_mirrors (Table.declareTyped_mirrors _ kind _ type mutable))).bind
    fun a b hab => ?_
  cases hab with
  | error => exact report_pure_mirrors .none _ _
  | ok hid =>
    refine (Mirrors.lift (updateSymbol_mirrors hid (f := fun s => { s with isPublic })
      (fun _ => rfl) fun _ => ⟨rfl, rfl⟩)).bind fun _ _ _ => ?_
    exact .pure (.some hid)

theorem keepTyped_mirrors (label : Label) (kind : SymbolKind) (type : Option Ty)
    (mutable isPublic : Bool) :
    Repeats σ P (do
      match ← declareTyped label kind type mutable isPublic with
      | none => return .none
      | some id =>
        keep id label.text mutable false
        return .value id : AnalysisM Plan) (do
      match ← declareTyped label kind type mutable isPublic with
      | none => return .none
      | some id =>
        keep id label.text mutable false
        return .value id : AnalysisM Plan) := by
  refine (declareTyped_mirrors label kind type mutable isPublic).bind fun a b hab => ?_
  cases hab with
  | none => exact .pure trivial
  | some _ => exact (Mirrors.lift (keep_mirrors _ mutable false)).bind fun _ _ _ => .pure trivial

theorem declareValue_mirrors (label : Label) (kind : SymbolKind) (type : Option TypeExpr)
    (mutable isPublic : Bool) : Repeats σ P (declareValue label kind type mutable isPublic)
      (declareValue label kind type mutable isPublic) := by
  unfold declareValue
  cases type with
  | none => exact keepTyped_mirrors label kind none mutable isPublic
  | some t =>
    refine converted_mirrors t fun t => ?_
    exact keepTyped_mirrors label kind (some t) mutable isPublic

theorem declareSignature_mirrors (hid : Follows σ id id') (f : FunctionHead) :
    Repeats σ P (declareSignature id f) (declareSignature id' f) := by
  unfold declareSignature
  refine (Mirrors.lift (symbol_mirrors hid)).bind fun y y' hy => ?_
  rw [Symbol.members_of_face hy]
  refine within_mirrors _ _ trivial ?_
  refine (Mirrors.lift (signature_mirrors f)).bind fun a b hab => ?_
  obtain ⟨sig, faults⟩ := a
  obtain ⟨sig', faults'⟩ := b
  obtain rfl : sig' = sig := hab
  refine (report_mirrors _ _).bind fun _ _ _ => ?_
  refine (retype_mirrors hid _).bind fun _ _ _ => ?_
  exact .pure trivial

theorem declareMethods_mirrors (home : Nat) (functions : List Function) :
    Repeats σ P (declareMethods home functions) (declareMethods home functions) := by
  induction functions with
  | nil => exact .pure trivial
  | cons f rest ih =>
    rw [declareMethods]
    refine (declareFunction_mirrors f home).bind fun a b hab => ?_
    cases hab with
    | none => exact ih.bind fun _ _ _ => .pure trivial
    | some hid =>
      exact (declareSignature_mirrors hid f.head).bind fun _ _ _ =>
        ih.bind fun _ _ _ => .pure trivial

theorem declareMembers_mirrors (hid : Follows σ id id')
    (pos : Position) (functions : List Function) :
    Repeats σ P (declareMembers id pos functions) (declareMembers id' pos functions) := by
  unfold declareMembers
  refine (Mirrors.lift (symbol_mirrors hid)).bind fun y y' hy => ?_
  rw [Symbol.members_of_face hy]
  exact (within_mirrors _ _ trivial (declareMethods_mirrors _ functions)).bind
    fun _ _ _ => .pure trivial

theorem declareFields_mirrors (hid : Follows σ id id') (pos : Position) (fields : List FieldDecl) :
    Repeats σ P (declareFields id pos fields) (declareFields id' pos fields) := by
  unfold declareFields
  refine (Mirrors.lift (symbol_mirrors hid)).bind fun y y' hy => ?_
  rw [Symbol.members_of_face hy]
  refine within_mirrors _ _ trivial (forM_mirrors fun f => ?_)
  refine converted_mirrors f.type fun t => ?_
  exact (declareTyped_mirrors _ _ _ _ _).discard

theorem declareVariants_mirrors (hid : Follows σ id id') (d : EnumDecl) :
    Repeats σ P (declareVariants id d) (declareVariants id' d) := by
  unfold declareVariants
  refine (Mirrors.lift (symbol_mirrors hid)).bind fun y y' hy => ?_
  rw [Symbol.members_of_face hy, Symbol.type_of_face hy]
  refine within_mirrors _ _ trivial (forM_mirrors fun v => ?_)
  cases v.payload with
  | none => exact (declareTyped_mirrors _ _ _ _ _).discard
  | some t =>
    refine converted_mirrors t fun t => ?_
    refine (Mirrors.lift (register_mirrors _)).bind fun t t' ht => ?_
    obtain rfl := ht
    exact (declareTyped_mirrors _ _ _ _ _).discard

theorem lookup_map_snd (σ : Equiv.Perm Nat) (l : List (String × Nat)) (name : String) :
    (l.map fun e => (e.1, σ e.2)).lookup name = (l.lookup name).map σ := by
  induction l with
  | nil => rfl
  | cons e rest ih =>
    rw [map_cons, lookup_cons, lookup_cons, ih]
    cases name == e.1 <;> rfl

theorem owner?_mirrors (t : Ty) : Checking.Renames σ P (Paired SameFace) (owner? t) (owner? t) := by
  unfold owner?
  refine (onRegistry_mirrors (Registry.resolve t)).bind fun u u' hu => ?_
  obtain rfl := hu
  split
  next name _ =>
    intro s s' h
    refine ⟨?_, h⟩
    show Paired SameFace ((s.nominal.lookup name).map s.table.symbol)
      ((s'.nominal.lookup name).map s'.table.symbol)
    rw [h.nominal, lookup_map_snd]
    cases s.nominal.lookup name with
    | none => exact .none
    | some i => exact .some (h.table.symbol_face i)
  · exact .pure .none

/-- Implementations are declared alike, in the scope of the type or their own. -/
theorem implement_mirrors (d : ImplHead) (functions : List Function) (hid : Follows σ id id')
    (scope : Nat) :
    Repeats σ P (implement d functions id scope) (implement d functions id' scope) := by
  unfold implement
  refine converted_mirrors d.target fun target => ?_
  refine (retype_mirrors hid _).bind fun _ _ _ => ?_
  refine (declareTyped_mirrors _ .generic _ false false).discard.bind fun _ _ _ => ?_
  have hmethods : ∀ home : Nat, Repeats σ P
      (do return (target, ← declareMethods home functions) : AnalysisM
        (Ty × List (Option FunctionPlan)))
      (do return (target, ← declareMethods home functions)) :=
    fun home => (declareMethods_mirrors home functions).bind fun _ _ _ => .pure trivial
  cases d.trait with
  | some _ => exact hmethods scope
  | none =>
    refine (Mirrors.lift (owner?_mirrors target)).bind fun a b hab => ?_
    cases hab with
    | none => exact hmethods scope
    | some hy =>
      rw [Option.bind_some, Option.bind_some, Symbol.members_of_face hy]
      exact hmethods _

theorem declareImplementation_mirrors (d : ImplHead) (functions : List Function) :
    Repeats σ P (declareImplementation d functions) (declareImplementation d functions) := by
  unfold declareImplementation
  refine (Mirrors.lift (onTable_mirrors (declare_mirrors _ .implementation d.pos))).bind
    fun a b hab => ?_
  cases hab with
  | error => exact report_pure_mirrors trivial _ _
  | ok hid =>
    refine (Mirrors.lift (onTable_mirrors (enter_mirrors .implBody))).bind
      fun scope scope' hscope => ?_
    obtain ⟨rfl, hne⟩ := hscope
    refine (Mirrors.lift (attach_mirrors hid hne)).bind fun _ _ _ => ?_
    refine (implement_mirrors d functions hid scope').bind fun _ _ _ => ?_
    exact (exitScope_mirrors d.pos).bind fun _ _ _ => .pure trivial

/-! ## Items -/

/-- **The first pass** does the same to tables that are the same up to a renaming, apart from uses
and modules, which are looked at by themselves. -/
theorem collectItem_mirrors (path : List String) {i : Item} (hi : i.isPlain = true) :
    Renames σ P (SameSketch σ) (collectItem path i) (collectItem path i) := by
  cases i with
  | use _ | moduleBlock _ _ => cases hi
  | structType d | classType d _ | enumType d =>
    rw [collectItem]
    exact collectType_mirrors path _ _ _
  | traitType d _ =>
    rw [collectItem]
    exact collectTrait_mirrors d
  | function f =>
    rw [collectItem]
    refine Mirrors.get.bind fun s s' hs => ?_
    rw [hs.table.current_eq]
    refine (declareFunction_mirrors f _).bind fun a b hab => ?_
    cases hab with
    | none => exact .pure rfl
    | some hid =>
      obtain rfl := hid
      exact .pure rfl
  | _ => exact .pure rfl

/-- **The second pass** does the same as well, from sketches that go with each other. -/
theorem declareItem_mirrors {i : Item} (hi : i.isPlain = true) (sketch : Sketch) :
    Repeats σ P (declareItem i sketch) (declareItem i (sketch.renamed σ)) := by
  cases i with
  -- uses and modules are not plain: their order is what may differ
  | use _ | moduleBlock _ _ => cases hi
  | letVar d | constant d =>
    rw [declareItem, declareItem]
    exact declareValue_mirrors _ _ _ _ _
  | implementation d functions =>
    rw [declareItem, declareItem]
    exact declareImplementation_mirrors d functions
  | function f =>
    cases sketch with
    | symbol id =>
      rw [Sketch.renamed, declareItem, declareItem]
      refine (declareSignature_mirrors rfl f.head).bind fun a b _ => ?_
      cases a <;> cases b <;> exact .pure trivial
    | _ => exact .pure trivial
  | structType d =>
    cases sketch with
    | symbol id =>
      rw [Sketch.renamed, declareItem, declareItem]
      exact (declareFields_mirrors rfl _ _).bind fun _ _ _ => .pure trivial
    | _ => exact .pure trivial
  | classType d functions =>
    cases sketch with
    | symbol id =>
      rw [Sketch.renamed, declareItem, declareItem]
      exact (declareFields_mirrors rfl _ _).bind fun _ _ _ => declareMembers_mirrors rfl _ functions
    | _ => exact .pure trivial
  | enumType d =>
    cases sketch with
    | symbol id =>
      rw [Sketch.renamed, declareItem, declareItem]
      exact (declareVariants_mirrors rfl d).bind fun _ _ _ => .pure trivial
    | _ => exact .pure trivial
  | traitType d functions =>
    cases sketch with
    | symbol id =>
      rw [Sketch.renamed, declareItem, declareItem]
      exact declareMembers_mirrors rfl _ functions
    | _ => exact .pure trivial
  | _ => exact .pure trivial

end Analysis

end UnitCheck
