import Mathlib.Logic.Equiv.Basic
import UnitCheck.Proofs.Scoping.Facing

/-!
# Tables up to a renaming of symbols

Two tables that have the same scopes and the same symbols under other ids.

* `Table.SameScopes` — the tables look the same for some names in some scopes, so that they are
  `Facing`.
* `Table.Renamed σ P t t'` — the symbol `σ i` of `t'` is the symbol `i` of `t`, and each name of a
  scope leads to symbols that correspond; what imports are waiting on corresponding scopes is left
  to `P`. Each operation on tables leads from such tables to such tables.
-/

namespace UnitCheck

open Option Array

/-- A symbol under its new id. -/
def Symbol.renamed (σ : Equiv.Perm Nat) (y : Symbol) : Symbol :=
  { y with id := σ y.id, aliasOf := y.aliasOf.map σ }

/-- What a symbol is, apart from ids and from being used. -/
def Symbol.face (y : Symbol) : Symbol := { y with id := 0, aliasOf := none, used := false }

section

variable {y y' : Symbol}

theorem Symbol.kind_of_face (h : y'.face = y.face) : y'.kind = y.kind := (congrArg kind h :)

theorem Symbol.type_of_face (h : y'.face = y.face) : y'.type = y.type := (congrArg type h :)

theorem Symbol.members_of_face (h : y'.face = y.face) : y'.members = y.members :=
  (congrArg members h :)

theorem Symbol.generics_of_face (h : y'.face = y.face) : y'.generics = y.generics :=
  (congrArg generics h :)

theorem Symbol.isPublic_of_face (h : y'.face = y.face) : y'.isPublic = y.isPublic :=
  (congrArg isPublic h :)

end

structure Scope.Renamed (σ : Equiv.Perm Nat) (s s' : Scope) : Prop where
  id_eq : s'.id = s.id
  parent_eq : s'.parent = s.parent
  lookup_eq : ∀ name, s'.names.lookup name = (s.names.lookup name).map σ

namespace Table

/-- The ids correspond. -/
abbrev Follows (σ : Equiv.Perm Nat) (i i' : Nat) : Prop := i' = σ i

/-! ## Tables with the same scopes -/

/-- Tables that look the same for names in scopes for which `V` holds; `E` holds of the symbols that
such names lead to. -/
structure SameScopes (σ : Equiv.Perm Nat) (E : Nat → Prop) (V : Nat → String → Prop)
    (t t' : Table) :
    Prop where
  scopes_size : t'.scopes.size = t.scopes.size
  scope : ∀ {j : Nat} {s s' : Scope}, t.scopes[j]? = some s → t'.scopes[j]? = some s' →
    s'.id = s.id ∧ s'.parent = s.parent ∧ ∀ name, V j name →
      s'.names.lookup name = (s.names.lookup name).map σ ∧ ∀ id ∈ s.names.lookup name, E id
  symbol_face : ∀ i, E i → (t'.symbol (σ i)).face = (t.symbol i).face

section

variable {σ : Equiv.Perm Nat} {E : Nat → Prop} {V : Nat → String → Prop} {t t' : Table}

/-- The symbols that names lead to. -/
abbrev Known (σ : Equiv.Perm Nat) (E : Nat → Prop) (i i' : Nat) : Prop := i' = σ i ∧ E i

theorem SameScopes.scope?_paired (h : t.SameScopes σ E V t') (m : Nat) :
    Paired (fun s s' => s'.id = s.id ∧ s'.parent = s.parent ∧ ∀ name, V m name →
      Paired (Known σ E) (s.names.lookup name) (s'.names.lookup name)) (t.scope? m)
        (t'.scope? m) := by
  rw [scope?_natCast, scope?_natCast]
  by_cases hm : m < t.scopes.size
  · have hm' : m < t'.scopes.size := h.scopes_size ▸ hm
    rw [getElem?_eq_getElem hm, getElem?_eq_getElem hm']
    obtain ⟨hid, hparent, hlookup⟩ := h.scope (getElem?_eq_getElem hm) (getElem?_eq_getElem hm')
    refine .some ⟨hid, hparent, fun name hname => ?_⟩
    obtain ⟨heq, hknown⟩ := hlookup name hname
    rw [heq]
    cases hl : List.lookup name _ with
    | none => exact .none
    | some id => exact .some ⟨rfl, hknown id hl⟩
  · rw [getElem?_eq_none (by omega), getElem?_eq_none (by rw [h.scopes_size]; omega)]
    exact .none

/-- Tables with the same scopes face each other scope by scope. -/
theorem SameScopes.facing (h : t.SameScopes σ E V t') :
    t.Facing (fun m m' => m' = m) (Known σ E) V t' where
  eq_iff hm hk := by rw [hm, hk]
  enclosing := by
    rintro _ m rfl
    -- the walk outward goes through scopes of the same numbers on both sides
    have hout : ∀ steps (m : Nat), List.Forall₂ (fun s s' : Scope => s'.id = s.id ∧
        ∀ name, (∀ j, V j name) → Paired (Known σ E) (s.names.lookup name) (s'.names.lookup name))
        (t.outward steps m) (t'.outward steps m) := by
      intro steps
      induction steps with
      | zero => exact fun _ => .nil
      | succ steps ih =>
        intro m
        rw [outward, outward]
        have hpaired := h.scope?_paired m
        revert hpaired
        generalize t.scope? m = x
        generalize t'.scope? m = x'
        rintro (⟨hid, hparent, hlookup⟩ | _)
        next s s' =>
          refine .cons ⟨hid, fun name hname => hlookup name (hname m)⟩ ?_
          rw [hparent]
          cases s.parent with
          | none => exact .nil
          | some p => exact ih p
        · exact .nil
    unfold enclosing
    rw [h.scopes_size]
    exact hout t.scopes.size m
  lookupIn := by
    rintro _ m rfl name hname
    have hpaired := h.scope?_paired m
    unfold lookupIn
    revert hpaired
    generalize t.scope? m = x
    generalize t'.scope? m = x'
    rintro (⟨-, -, hlookup⟩ | _)
    · exact hlookup name hname
    · exact .none
  kind_eq := by
    rintro i _ ⟨rfl, hi⟩
    exact Symbol.kind_of_face (h.symbol_face i hi)
  isPublic_eq := by
    rintro i _ ⟨rfl, hi⟩
    exact Symbol.isPublic_of_face (h.symbol_face i hi)
  members := by
    rintro i _ ⟨rfl, hi⟩
    rw [Symbol.members_of_face (h.symbol_face i hi)]
    cases (t.symbol i).members with
    | none => exact .none
    | some m => exact .some rfl

end

/-! ## Renamed tables -/

/-- What the imports of a scope have to do with those of another one. -/
abbrev ImportsRel : Type := Nat → List Import → List Import → Prop

structure Renamed (σ : Equiv.Perm Nat) (P : ImportsRel) (t t' : Table) : Prop where
  current_eq : t'.current = t.current
  scopes_size : t'.scopes.size = t.scopes.size
  scope : ∀ {j : Nat} {s s' : Scope}, t.scopes[j]? = some s → t'.scopes[j]? = some s' →
    s.Renamed σ s' ∧ P j s.imports s'.imports
  symbols_size : t'.symbols.size = t.symbols.size
  symbol_eq : ∀ i : Nat, t'.symbols[σ i]? = (t.symbols[i]?).map (Symbol.renamed σ)
  /-- Only names from imports get other ids. -/
  moved : ∀ i, σ i ≠ i → ∃ y, t.symbols[i]? = some y ∧ y.aliasOf.isSome = true
  /-- Scopes to come have no imports. -/
  fresh : ∀ j, t.scopes.size ≤ j → P j [] []
  nonempty : 0 < t.scopes.size
  members_ne : ∀ {i : Nat} {y : Symbol}, t.symbols[i]? = some y → y.members ≠ some 0

section

variable {σ : Equiv.Perm Nat} {P : ImportsRel} {t t' : Table} {f : Symbol → Symbol}

namespace Renamed

section

variable (h : t.Renamed σ P t')
include h

/-- Symbols to come keep their ids. -/
theorem fixed {i : Nat} (hi : t.symbols.size ≤ i) : σ i = i := by
  by_contra hne
  obtain ⟨y, hy, -⟩ := h.moved i hne
  rw [getElem?_eq_none hi] at hy
  cases hy

theorem scope_cases (j : Nat) : (t.scopes[j]? = none ∧ t'.scopes[j]? = none) ∨
      ∃ s s', t.scopes[j]? = some s ∧ t'.scopes[j]? = some s' ∧ s.Renamed σ s' := by
  by_cases hj : j < t.scopes.size
  · have hj' : j < t'.scopes.size := h.scopes_size ▸ hj
    have hs := getElem?_eq_getElem hj
    have hs' := getElem?_eq_getElem hj'
    exact .inr ⟨_, _, hs, hs', (h.scope hs hs').1⟩
  · exact .inl ⟨getElem?_eq_none (by omega), getElem?_eq_none (by rw [h.scopes_size]; omega)⟩

theorem scope?_paired (id : Int) : Paired (Scope.Renamed σ) (t.scope? id) (t'.scope? id) := by
  unfold scope?
  split
  · exact .none
  · rcases h.scope_cases id.toNat with ⟨hs, hs'⟩ | ⟨s, s', hs, hs', hss⟩
    · rw [hs, hs']
      exact .none
    · rw [hs, hs']
      exact .some hss

theorem symbol_face (i : Nat) : (t'.symbol (σ i)).face = (t.symbol i).face := by
  rw [symbol, symbol, getD_eq_getD_getElem?, getD_eq_getD_getElem?, h.symbol_eq]
  cases t.symbols[i]? <;> rfl

theorem target_face (i : Nat) : (t'.target (σ i)).face = (t.target i).face := by
  have halias : (t'.symbol (σ i)).aliasOf = (t.symbol i).aliasOf.map σ := by
    rw [symbol, symbol, getD_eq_getD_getElem?, getD_eq_getD_getElem?, h.symbol_eq]
    cases t.symbols[i]? <;> rfl
  unfold target
  dsimp only
  rw [halias]
  cases (t.symbol i).aliasOf with
  | none => exact h.symbol_face i
  | some a => exact h.symbol_face a

theorem lookupIn_eq (scope : Int) (name : String) :
    t'.lookupIn scope name = (t.lookupIn scope name).map σ := by
  have hpaired := h.scope?_paired scope
  unfold lookupIn
  revert hpaired
  generalize t.scope? scope = x
  generalize t'.scope? scope = x'
  rintro (⟨hss⟩ | _)
  · exact hss.lookup_eq name
  · rfl

theorem sameScopes : t.SameScopes σ (fun _ => True) (fun _ _ => True) t' where
  scopes_size := h.scopes_size
  scope hs hs' := by
    have hss := (h.scope hs hs').1
    exact ⟨hss.id_eq, hss.parent_eq, fun name _ => ⟨hss.lookup_eq name, fun _ _ => trivial⟩⟩
  symbol_face i _ := h.symbol_face i

theorem symbol_members_ne (i : Nat) : (t.symbol i).members ≠ some 0 := by
  rw [symbol, getD_eq_getD_getElem?]
  cases hy : t.symbols[i]? with
  | none => exact fun heq => by cases heq
  | some y => exact h.members_ne hy

theorem resolveFrom_matches (scope : Nat) (path : List String) :
    Matches (Follows σ) (t.resolveFrom scope path) (t'.resolveFrom scope path) :=
  (h.sameScopes.facing.resolveFrom_matches rfl (fun _ _ _ => trivial) fun _ _ _ _ _ => trivial).imp
    fun _ _ hid => hid.1

theorem resolve_matches (path : List String) :
    Matches (Follows σ) (t.resolve path) (t'.resolve path) := by
  unfold resolve
  rw [h.current_eq]
  exact h.resolveFrom_matches _ path

/-! ## Changes -/

theorem goto (c : Nat) : { t with current := c }.Renamed σ P { t' with current := c } :=
  { h with current_eq := rfl }

/-- Symbols that go with each other are changed in the same way. -/
theorem updateSymbol (id : Nat) {g : Symbol → Symbol} (hf : ∀ y, g (y.renamed σ) = (f y).renamed σ)
    (hmembers : ∀ y, y.members ≠ some 0 → (f y).members ≠ some 0)
    (halias : ∀ y, y.aliasOf.isSome = true → (f y).aliasOf.isSome = true) :
    (t.updateSymbol id f).Renamed σ P (t'.updateSymbol (σ id) g) where
  current_eq := h.current_eq
  scopes_size := h.scopes_size
  scope := h.scope
  symbols_size := by
    simp only [Table.updateSymbol, size_modify]
    exact h.symbols_size
  symbol_eq i := by
    rw [getElem?_updateSymbol, getElem?_updateSymbol, h.symbol_eq]
    cases t.symbols[i]? with
    | none => rfl
    | some y =>
      by_cases hi : id = i
      · simp [hi, hf]
      · simp [hi, σ.injective.ne hi]
  moved i hi := by
    obtain ⟨y, hy, hsome⟩ := h.moved i hi
    rw [getElem?_updateSymbol, hy]
    refine ⟨_, rfl, ?_⟩
    split
    · exact halias y hsome
    · exact hsome
  fresh := h.fresh
  nonempty := h.nonempty
  members_ne := by
    intro i y hy
    rw [getElem?_updateSymbol] at hy
    obtain ⟨x, hx, rfl⟩ := map_eq_some_iff.mp hy
    split
    · exact hmembers x (h.members_ne hx)
    · exact h.members_ne hx

theorem amendSymbol (id : Nat) (hf : ∀ y, f (y.renamed σ) = (f y).renamed σ)
    (hkeeps : ∀ y, (f y).members = y.members ∧ (f y).aliasOf = y.aliasOf) :
    (t.updateSymbol id f).Renamed σ P (t'.updateSymbol (σ id) f) :=
  h.updateSymbol id hf (fun y hy => by rwa [(hkeeps y).1]) fun y hy => by rwa [(hkeeps y).2]

theorem markUsed (id : Nat) : (t.markUsed id).Renamed σ P (t'.markUsed (σ id)) :=
  h.amendSymbol id (f := fun y => { y with used := true }) (fun _ => rfl) fun _ => ⟨rfl, rfl⟩

/-- What becomes of the imports of a scope that is changed is left to `P'`. -/
theorem rewriteScope {P' : ImportsRel} (id : Nat) {f f' : Scope → Scope}
    (hf : ∀ s s', s.Renamed σ s' → P id s.imports s'.imports →
      (f s).Renamed σ (f' s') ∧ P' id (f s).imports (f' s').imports)
    (helse : ∀ j a b, id ≠ j → P j a b → P' j a b) (hfresh : ∀ j, t.scopes.size ≤ j → P' j [] []) :
    (t.updateScope id f).Renamed σ P' (t'.updateScope id f') where
  current_eq := h.current_eq
  scopes_size := by
    simp only [Table.updateScope, size_modify]
    exact h.scopes_size
  scope := by
    intro j s s' hs hs'
    rw [getElem?_updateScope] at hs hs'
    obtain ⟨x, hx, rfl⟩ := map_eq_some_iff.mp hs
    obtain ⟨x', hx', rfl⟩ := map_eq_some_iff.mp hs'
    obtain ⟨hxx, hp⟩ := h.scope hx hx'
    split
    next hj =>
      subst hj
      exact hf x x' hxx hp
    next hj => exact ⟨hxx, helse j _ _ hj hp⟩
  symbols_size := h.symbols_size
  symbol_eq := h.symbol_eq
  moved := h.moved
  fresh j hj := by
    simp only [Table.updateScope, size_modify] at hj
    exact hfresh j hj
  nonempty := by
    simp only [Table.updateScope, size_modify]
    exact h.nonempty
  members_ne := h.members_ne

theorem updateScope (id : Nat) {f f' : Scope → Scope}
    (hf : ∀ s s', s.Renamed σ s' → P id s.imports s'.imports →
      (f s).Renamed σ (f' s') ∧ P id (f s).imports (f' s').imports) :
    (t.updateScope id f).Renamed σ P (t'.updateScope id f') :=
  h.rewriteScope id hf (fun _ _ _ _ hp => hp) h.fresh

/-- Both tables enter a scope, which has the same number in both. -/
theorem entered (kind : ScopeKind) : (t.entered kind).Renamed σ P (t'.entered kind) where
  current_eq := h.scopes_size
  scopes_size := by
    simp only [Table.entered, size_push, size_withChild]
    rw [h.scopes_size]
  scope := by
    -- the parent gets a child on both sides, which is the number of the new scope
    have hchild : t.withChild.Renamed σ P t'.withChild := by
      unfold withChild
      rw [h.current_eq]
      exact h.updateScope t.current fun s s' hss hp =>
        ⟨⟨hss.id_eq, hss.parent_eq, hss.lookup_eq⟩, hp⟩
    intro j s s' hs hs'
    rw [getElem?_entered] at hs hs'
    rw [h.scopes_size] at hs'
    split at hs
    next hj =>
      rw [if_pos hj] at hs'
      obtain rfl := some.inj hs
      obtain rfl := some.inj hs'
      refine ⟨⟨h.scopes_size, ?_, fun _ => rfl⟩, h.fresh j (by omega)⟩
      show some t'.current = some t.current
      rw [h.current_eq]
    next hj =>
      rw [if_neg hj] at hs'
      exact hchild.scope hs hs'
  symbols_size := h.symbols_size
  symbol_eq := h.symbol_eq
  moved := h.moved
  fresh j hj := by
    simp only [Table.entered, size_push, size_withChild] at hj
    exact h.fresh j (by omega)
  nonempty := by
    simp only [Table.entered, size_push]
    omega
  members_ne := h.members_ne

/-- Both tables get a symbol, under the same id since the renaming leaves new ids alone. -/
theorem withSymbol (c : Nat) (name : String) (kind : SymbolKind)
    (pos : Position) :
    (t.withSymbol c name kind pos).Renamed σ P (t'.withSymbol c name kind pos) := by
  -- ids from the size of the table on are not renamed
  have hnew : σ t.symbols.size = t.symbols.size := h.fixed le_rfl
  have hscopes : (t.updateScope c fun s =>
      { s with names := s.names ++ [(name, t.symbols.size)] }).Renamed σ P
      (t'.updateScope c fun s =>
      { s with names := s.names ++ [(name, t'.symbols.size)] }) := by
    refine h.updateScope c fun s s' hss hp => ⟨⟨hss.id_eq, hss.parent_eq, fun n => ?_⟩, hp⟩
    rw [List.lookup_append, List.lookup_append, hss.lookup_eq, h.symbols_size]
    cases s.names.lookup n with
    | some id => rfl
    | none =>
      rw [List.lookup_cons]
      cases n == name with
      | true => exact congrArg some hnew.symm
      | false => rfl
  refine ⟨hscopes.current_eq, hscopes.scopes_size, hscopes.scope, ?_, fun i => ?_, fun i hi => ?_,
    hscopes.fresh, hscopes.nonempty, ?_⟩
  · simp only [Table.withSymbol, Table.updateScope, size_push, h.symbols_size]
  · rw [getElem?_withSymbol, getElem?_withSymbol, h.symbols_size, h.symbol_eq]
    by_cases hi : i = t.symbols.size
    · rw [if_pos hi, if_pos (by rw [hi, hnew])]
      simp [Symbol.renamed, hnew]
    · rw [if_neg hi, if_neg]
      rw [← hnew]
      exact σ.injective.ne hi
  · obtain ⟨y, hy, hsome⟩ := h.moved i hi
    have hlt := lt_of_get? hy
    exact ⟨y, by rw [getElem?_withSymbol, if_neg (by omega), hy], hsome⟩
  · intro i y hy
    rw [getElem?_withSymbol] at hy
    split at hy
    · obtain rfl := some.inj hy
      simp
    · exact h.members_ne hy

end

end Renamed

/-! ## Operations -/

theorem enter_mirrors (kind : ScopeKind) :
    Mirrors (Renamed σ P) (fun a b => b = a ∧ a ≠ 0) (enter kind) (enter kind) := by
  intro t t' h
  rw [enter_run, enter_run]
  refine ⟨⟨h.scopes_size, ?_⟩, h.entered kind⟩
  have := h.nonempty
  omega

theorem exit_mirrors : Mirrors (Renamed σ P) (Matches fun a b => b = a) exit exit := by
  intro t t' h
  have hparent : (t'.scope t'.current).parent = (t.scope t.current).parent := by
    rw [h.current_eq, Table.scope, Table.scope, getD_eq_getD_getElem?, getD_eq_getD_getElem?]
    rcases h.scope_cases t.current with ⟨hs, hs'⟩ | ⟨s, s', hs, hs', hss⟩
    · rw [hs, hs']
    · rw [hs, hs']
      exact hss.parent_eq
  rw [exit_eq, exit_eq, hparent]
  cases (t.scope t.current).parent with
  | none => exact ⟨.error, h⟩
  | some p => exact ⟨.ok h.current_eq, h.goto p⟩

theorem reenter_mirrors (id : Int) :
    Mirrors (Renamed σ P) (Matches fun _ _ => True) (reenter id) (reenter id) := by
  intro t t' h
  have hpaired := h.scope?_paired id
  rw [reenter_eq, reenter_eq]
  revert hpaired
  generalize t.scope? id = x
  generalize t'.scope? id = x'
  rintro (⟨hss⟩ | _)
  · dsimp only
    rw [hss.parent_eq, h.current_eq, hss.id_eq]
    split
    · exact ⟨.ok trivial, h.goto _⟩
    · exact ⟨.error, h⟩
  · exact ⟨.error, h⟩

/-- Declarations go with each other: both are new, or both names are taken. -/
theorem declareIn_mirrors (scope : Int) (name : String) (kind : SymbolKind) (pos : Position) :
    Mirrors (Renamed σ P) (Matches (Follows σ)) (declareIn scope name kind pos)
      (declareIn scope name kind pos) := by
  intro t t' h
  have hpaired := h.scope?_paired scope
  rw [declareIn_eq, declareIn_eq]
  revert hpaired
  generalize t.scope? scope = x
  generalize t'.scope? scope = x'
  rintro (⟨hss⟩ | _)
  next s s' =>
    dsimp only
    rw [hss.lookup_eq, hss.id_eq]
    cases s.names.lookup name with
    | some previous => exact ⟨.error, h⟩
    | none =>
      refine ⟨.ok ?_, h.withSymbol s.id name kind pos⟩
      rw [h.symbols_size, Follows, h.fixed le_rfl]
  · exact ⟨.error, h⟩

theorem declare_mirrors (name : String) (kind : SymbolKind) (pos : Position) :
    Mirrors (Renamed σ P) (Matches (Follows σ)) (declare name kind pos)
      (declare name kind pos) := by
  intro t t' h
  have hrun : (declare name kind pos).run t' = (declareIn t.current name kind pos).run t' := by
    rw [← h.current_eq]
    rfl
  rw [hrun]
  exact declareIn_mirrors t.current name kind pos h

theorem updateSymbol_mirrors {id id' : Nat} (hid : Follows σ id id')
    (hf : ∀ y, f (y.renamed σ) = (f y).renamed σ)
    (hkeeps : ∀ y, (f y).members = y.members ∧ (f y).aliasOf = y.aliasOf) :
    Mirrors (Renamed σ P) (fun _ _ => True) (modify (·.updateSymbol id f) : TableM Unit)
      (modify (·.updateSymbol id' f)) := by
  intro t t' h
  obtain rfl := hid
  exact ⟨trivial, h.amendSymbol id hf hkeeps⟩

theorem declareTyped_mirrors (name : String) (kind : SymbolKind) (pos : Position) (type : Option Ty)
    (mutable : Bool) :
    Mirrors (Renamed σ P) (Matches (Follows σ)) (declareTyped name kind pos type mutable)
      (declareTyped name kind pos type mutable) := by
  unfold declareTyped
  refine (declare_mirrors name kind pos).bind fun a b hab => ?_
  cases hab with
  | error => exact .pure .error
  | ok hid =>
    refine (updateSymbol_mirrors hid (f := fun y => { y with type, mutable }) (fun _ => rfl)
      fun _ => ⟨rfl, rfl⟩).bind fun _ _ _ => ?_
    exact .pure (.ok hid)

/-- So do names for symbols that go with each other. -/
theorem declareAlias_mirrors (scope : Int) (name : String) {target target' : Nat}
    (hid : Follows σ target target') (pos : Position) :
    Mirrors (Renamed σ P) (Matches (Follows σ)) (declareAlias scope name target pos)
      (declareAlias scope name target' pos) := by
  obtain rfl := hid
  intro t t' h
  unfold declareAlias
  simp only [StateT.run_bind, StateT.run_get, pure_bind]
  rw [symbol?_natCast, symbol?_natCast, h.symbol_eq]
  cases hy : t.symbols[target]? with
  | none => exact ⟨.error, h⟩
  | some y =>
    have hmembers := h.members_ne hy
    refine ((declareIn_mirrors scope name y.kind pos).bind fun a b hab => ?_) h
    cases hab with
    | error => exact .pure .error
    | @ok id _ hid =>
      obtain rfl := hid
      intro t t' h
      let f (a : Nat) (s : Symbol) : Symbol :=
        { s with
          type := y.type
          members := y.members
          generics := y.generics
          mutable := y.mutable
          initialized := y.initialized
          shape := y.shape
          aliasOf := some a }
      have hnamed := h.updateSymbol id (f := f y.id) (g := f (σ y.id)) (fun _ => rfl)
        (fun _ _ => hmembers) fun _ _ => rfl
      exact ⟨.ok rfl, hnamed.markUsed y.id⟩

end

end Table

end UnitCheck
