import UnitCheck.Proofs.Analysis.Collect
import UnitCheck.Proofs.Analysis.Renaming

/-!
# Rounds of imports

An import that can be resolved adds a name to its scope, and so it may change what other imports
stand for. Imports of one scope are `Apart` if none goes through the name of the other: the order of
such imports does not matter, up to the ids of the names that they add.

* `imported`, `waiting` — what a round of imports does with a table, and what it leaves.
* `imported_swap` — two imports that are apart can be resolved in either order.
* `allImported_shuffled` — so can all imports of each scope.
-/

namespace UnitCheck

open Checking Table List Option

/-- No imports are waiting. -/
def Cleared (_ : Nat) (a b : List Import) : Prop := a = [] ∧ b = []

namespace Table.Renamed

variable {σ τ : Equiv.Perm Nat} {P P' : ImportsRel} {t t' t'' : Table}

theorem imp (hP : ∀ j a b, P j a b → P' j a b) (h : t.Renamed σ P t') : t.Renamed σ P' t' :=
  { h with
    scope := fun hs hs' => ⟨(h.scope hs hs').1, hP _ _ _ (h.scope hs hs').2⟩
    fresh := fun j hj => hP j _ _ (h.fresh j hj) }

/-- Imports are put on the current scope. -/
theorem addImport (h : t.Renamed σ P t') (hcurrent : t.current < t.scopes.size) {i i' : Import}
    (hhere : ∀ a b, P t.current a b → P' t.current (a ++ [i]) (b ++ [i']))
    (helse : ∀ j a b, j ≠ t.current → P j a b → P' j a b) :
    ((Table.addImport i).run t).2.Renamed σ P' ((Table.addImport i').run t').2 := by
  show (t.updateScope t.current _).Renamed σ P' (t'.updateScope t'.current _)
  rw [h.current_eq]
  exact h.rewriteScope t.current
    (fun s s' hss hp => ⟨⟨hss.id_eq, hss.parent_eq, hss.lookup_eq⟩, hhere _ _ hp⟩)
    (fun j a b hj => helse j a b hj.symm) fun j hj => helse j _ _ (by omega) (h.fresh j hj)

/-- Once the imports have been taken, none are waiting on either side. -/
theorem takeImports (h : t.Renamed σ P t') :
    (Table.takeImports.run t).2.Renamed σ Cleared (Table.takeImports.run t').2 where
  current_eq := h.current_eq
  scopes_size := by
    show (t'.scopes.map _).size = (t.scopes.map _).size
    rw [Array.size_map, Array.size_map, h.scopes_size]
  scope := by
    intro j s s' hs hs'
    rw [getElem?_takeImports] at hs hs'
    obtain ⟨x, hx, rfl⟩ := map_eq_some_iff.mp hs
    obtain ⟨x', hx', rfl⟩ := map_eq_some_iff.mp hs'
    have hxx := (h.scope hx hx').1
    exact ⟨⟨hxx.id_eq, hxx.parent_eq, hxx.lookup_eq⟩, rfl, rfl⟩
  symbols_size := h.symbols_size
  symbol_eq := h.symbol_eq
  moved := h.moved
  fresh _ _ := ⟨rfl, rfl⟩
  nonempty := by
    show 0 < (t.scopes.map _).size
    rw [Array.size_map]
    exact h.nonempty
  members_ne := h.members_ne

/-- One renaming after another. -/
theorem trans (hP : ∀ {j a b c}, P j a b → P j b c → P j a c) (h : t.Renamed σ P t')
    (h' : t'.Renamed τ P t'') : t.Renamed (σ.trans τ) P t'' where
  current_eq := h'.current_eq.trans h.current_eq
  scopes_size := h'.scopes_size.trans h.scopes_size
  scope := by
    intro j s s'' hs hs''
    have hj := lt_of_get? hs
    have hs' := Array.getElem?_eq_getElem (h.scopes_size ▸ hj : j < t'.scopes.size)
    obtain ⟨hss, hp⟩ := h.scope hs hs'
    obtain ⟨hss', hp'⟩ := h'.scope hs' hs''
    refine ⟨⟨hss'.id_eq.trans hss.id_eq, hss'.parent_eq.trans hss.parent_eq,
      fun name => ?_⟩, hP hp hp'⟩
    rw [hss'.lookup_eq, hss.lookup_eq, Option.map_map]
    rfl
  symbols_size := h'.symbols_size.trans h.symbols_size
  symbol_eq i := by
    show t''.symbols[τ (σ i)]? = _
    rw [h'.symbol_eq, h.symbol_eq, Option.map_map]
    congr 1
    funext y
    simp [Symbol.renamed]
  moved i hi := by
    -- an id that the first renaming leaves alone is moved by the second
    by_cases hσ : σ i = i
    · obtain ⟨y', hy', hsome⟩ := h'.moved i (by simpa [hσ] using hi)
      have heq := h.symbol_eq i
      rw [hσ, hy'] at heq
      obtain ⟨y, hy, rfl⟩ := map_eq_some_iff.mp heq.symm
      exact ⟨y, hy, by simpa [Symbol.renamed] using hsome⟩
    · exact h.moved i hσ
  fresh j hj := h.fresh j hj
  nonempty := h.nonempty
  members_ne := h.members_ne

/-- Where no imports are waiting on either side, the table is related to itself. -/
theorem noneWaiting (h : t.Renamed σ Cleared t') : t.Renamed (Equiv.refl Nat) Cleared t where
  current_eq := rfl
  scopes_size := rfl
  scope := by
    intro j s s' hs hs'
    obtain rfl := mem_unique hs hs'
    have hj := lt_of_get? hs
    have hp := (h.scope hs (Array.getElem?_eq_getElem (h.scopes_size ▸ hj : j < t'.scopes.size))).2
    exact ⟨⟨rfl, rfl, fun name => by simp⟩, hp.1, hp.1⟩
  symbols_size := rfl
  symbol_eq i := by
    have hself : Symbol.renamed (Equiv.refl Nat) = id := by
      funext y
      simp [Symbol.renamed]
    rw [hself, Option.map_id]
    rfl
  moved i hi := absurd rfl hi
  fresh j hj := ⟨rfl, rfl⟩
  nonempty := h.nonempty
  members_ne := h.members_ne

end Table.Renamed

namespace Analysis

/-! ## One import after the other -/

/-- The table after an import, which adds nothing if it cannot be resolved. -/
def imported (t : Table) (e : Nat × Import) : Table :=
  match t.resolveFrom e.1 e.2.path with
  | .ok target => ((Table.declareAlias e.1 e.2.name target e.2.pos).run t).2
  | .error _ => t

/-- Whether an import can be resolved. -/
def resolves (t : Table) (e : Nat × Import) : Bool := (t.resolveFrom e.1 e.2.path).isOk

def allImported (t : Table) (es : List (Nat × Import)) : Table := es.foldl imported t

/-- The imports that cannot be resolved when it is their turn. -/
def waiting (t : Table) : List (Nat × Import) → List (Nat × Import)
  | [] => []
  | e :: rest =>
    if resolves t e then waiting (imported t e) rest else e :: waiting (imported t e) rest

/-- Where imports were reported that cannot be resolved. -/
def importErrors (ds : List Diagnostic) : List Position :=
  (ds.filter (·.code = .importError)).map (·.pos)

theorem importErrors_append (ds ds' : List Diagnostic) :
    importErrors (ds ++ ds') = importErrors ds ++ importErrors ds' := by
  rw [importErrors, filter_append, map_append]
  rfl

theorem importErrors_taken (fault : DeclareFault) (pos : Position) :
    importErrors [fault.diagnostic pos] = [] := by
  cases fault <;> rfl

/-- How a round of imports ends. -/
structure Round (final : Bool) (es : List (Nat × Import)) (log : List Diagnostic) (s : Store)
    (r : (List (Nat × Import) × List Diagnostic) × Store) : Prop where
  left : r.1.1 = if final then [] else waiting s.table es
  errors : importErrors r.1.2 = importErrors log ++ if final
    then (waiting s.table es).map (·.2.pos) else []
  store : r.2 = { s with table := allImported s.table es }

/-- What a round does to the table is what importing one by one does. An import whose name is taken
is reported and not kept. -/
theorem resolveEach_round (final : Bool) (es : List (Nat × Import)) (log : List Diagnostic)
    (s : Store) : Round final es log s (((resolveEach final es).run log).run s) := by
  induction es generalizing log s with
  | nil => exact ⟨by cases final <;> rfl, by cases final <;> exact (append_nil _).symm, rfl⟩
  | cons e rest ih =>
    obtain ⟨scope, i⟩ := e
    have hget : ((getThe Store : AnalysisM Store).run log).run s = pure ((s, log), s) := rfl
    cases hr : s.table.resolveFrom scope i.path with
    | ok target =>
      have hwaiting : waiting s.table ((scope, i) :: rest) =
          waiting (imported s.table (scope, i)) rest := by
        rw [waiting, if_pos (by simp only [resolves, hr]; rfl)]
      -- The rest of the round goes on from the new table, whether or not the name was taken.
      have hstep : ∃ log₁, importErrors log₁ = importErrors log ∧
          ((resolveEach final ((scope, i) :: rest)).run log).run s =
            ((resolveEach final rest).run log₁).run
            { s with table := imported s.table (scope, i) } := by
        have himported : imported s.table (scope, i) =
            ((Table.declareAlias scope i.name target i.pos).run s.table).2 := by
          simp only [imported, hr]
        have halias : ((liftM (onTable (Table.declareAlias scope i.name target i.pos)) :
            AnalysisM (Except DeclareFault Nat)).run log).run s =
              pure ((((Table.declareAlias scope i.name target i.pos).run s.table).1, log),
                { s with table := imported s.table (scope, i) }) := by
          rw [himported]
          rfl
        simp only [resolveEach, StateT.run_bind, hget, pure_bind, hr, halias]
        cases ((Table.declareAlias scope i.name target i.pos).run s.table).1 with
        | ok _ => exact ⟨log, rfl, rfl⟩
        | error fault =>
          refine ⟨log ++ [fault.diagnostic i.pos], ?_, rfl⟩
          rw [importErrors_append, importErrors_taken, append_nil]
      obtain ⟨log₁, hlog, hrun⟩ := hstep
      obtain ⟨hleft, herrors, hstore⟩ := ih log₁ { s with table := imported s.table (scope, i) }
      rw [hrun]
      exact ⟨by rw [hleft, hwaiting], by rw [herrors, hlog, hwaiting], hstore⟩
    | error fault =>
      have himported : imported s.table (scope, i) = s.table := by simp only [imported, hr]
      have hwaiting :
        waiting s.table ((scope, i) :: rest) = (scope, i) :: waiting s.table rest := by
        rw [waiting, himported, if_neg (by simp only [resolves, hr]; exact Bool.false_ne_true)]
      have hall : allImported s.table ((scope, i) :: rest) = allImported s.table rest :=
        congrArg (allImported · rest) himported
      cases final with
      | true =>
        obtain ⟨hleft, herrors, hstore⟩ := ih (log ++ [unresolvedImport i fault]) s
        simp only [resolveEach, StateT.run_bind, hget, pure_bind, hr]
        refine ⟨hleft, herrors.trans ?_, by rw [hall]; exact hstore⟩
        rw [importErrors_append, hwaiting, append_assoc]
        rfl
      | false =>
        obtain ⟨hleft, herrors, hstore⟩ := ih log s
        simp only [resolveEach, StateT.run_bind, hget, pure_bind, hr]
        exact ⟨by rw [hwaiting]; exact congrArg ((scope, i) :: ·) hleft, herrors,
          by rw [hall]; exact hstore⟩

/-! ## The same imports on renamed tables -/

section

variable {σ : Equiv.Perm Nat} {P : ImportsRel} {t t' : Table}

theorem imported_mirrors (h : t.Renamed σ P t') (e : Nat × Import) :
    (imported t e).Renamed σ P (imported t' e) ∧ resolves t' e = resolves t e := by
  have hmatch := h.resolveFrom_matches e.1 e.2.path
  unfold imported resolves
  revert hmatch
  generalize t.resolveFrom e.1 e.2.path = x
  generalize t'.resolveFrom e.1 e.2.path = x'
  rintro (⟨hid⟩ | _)
  · exact ⟨(Table.declareAlias_mirrors e.1 e.2.name hid e.2.pos h).2, rfl⟩
  · exact ⟨h, rfl⟩

theorem allImported_mirrors (h : t.Renamed σ P t') (es : List (Nat × Import)) :
    (allImported t es).Renamed σ P (allImported t' es) ∧ waiting t' es = waiting t es := by
  induction es generalizing t t' with
  | nil => exact ⟨h, rfl⟩
  | cons e rest ih =>
    obtain ⟨he, hresolves⟩ := imported_mirrors h e
    obtain ⟨hrest, hwaiting⟩ := ih he
    exact ⟨hrest, by rw [waiting, waiting, hresolves, hwaiting]⟩

end

/-! ## Imports that are apart -/

/-- The import `j` does not go through the name of `i`, which is of the same scope. In the global
scope only the first name of a path is looked up, in that of a module (`nested`) any of them may
be. -/
def Avoids (nested : Bool) (i j : Import) : Prop :=
  j.path.head? ≠ some i.name ∧ (nested = true → i.name ∉ j.path.tail)

/-- Imports of the same scope that do not depend on each other. -/
structure Apart (nested : Bool) (i j : Import) : Prop where
  name_ne : i.name ≠ j.name
  left : Avoids nested j i
  right : Avoids nested i j

instance (nested : Bool) (i j : Import) : Decidable (Avoids nested i j) :=
  inferInstanceAs (Decidable (_ ∧ _))

instance (nested : Bool) (i j : Import) : Decidable (Apart nested i j) :=
  decidable_of_iff (i.name ≠ j.name ∧ Avoids nested j i ∧ Avoids nested i j)
    ⟨fun h => ⟨h.1, h.2.1, h.2.2⟩, fun h => ⟨h.name_ne, h.left, h.right⟩⟩

theorem Apart.symm {nested : Bool} {i j : Import} (h : Apart nested i j) : Apart nested j i :=
  ⟨h.name_ne.symm, h.right, h.left⟩

/-- The symbol of a name for another symbol. -/
def aliasSymbol (id : Nat) (name : String) (scope : Nat) (pos : Position)
    (target : Symbol) : Symbol where
  id
  name
  kind := target.kind
  scope
  pos
  type := target.type
  members := target.members
  generics := target.generics
  mutable := target.mutable
  initialized := target.initialized
  shape := target.shape
  aliasOf := some target.id

/-- The table with the name of an import. -/
def bound (t : Table) (scope : Nat) (i : Import) (y : Symbol) : Table :=
  (withAlias t scope i.name y i.pos).markUsed y.id

section

variable {t : Table} {c id : Nat} {i j : Import} {y z : Symbol} {name : String}

theorem getElem?_bound_scopes (m : Nat) : (bound t c i y).scopes[m]? = (t.scopes[m]?).map fun s =>
      if c = m then { s with names := s.names ++ [(i.name, t.symbols.size)] } else s :=
  getElem?_updateScope t c _ m

theorem getElem?_bound_symbols (hy : y.id < t.symbols.size)
    (k : Nat) : (bound t c i y).symbols[k]? =
      if k = t.symbols.size then some (aliasSymbol t.symbols.size i.name c i.pos y)
      else (t.symbols[k]?).map fun x => if y.id = k then { x with used := true } else x := by
  unfold bound markUsed withAlias
  rw [getElem?_updateSymbol, getElem?_updateSymbol, getElem?_withSymbol]
  by_cases hk : k = t.symbols.size
  · subst hk
    simp [aliasSymbol, hy.ne]
  · rw [if_neg hk, if_neg hk]
    cases t.symbols[k]? with
    | none => rfl
    | some x => simp [Ne.symm hk]

/-- What an import does: nothing, or it adds its name for what its path stands for. -/
theorem imported_cases (h : t.Sound) (hc : c < t.scopes.size) (i : Import) :
    ((resolves t (c, i) = false ∨ (t.lookupIn c i.name).isSome = true) ∧ imported t (c, i) = t) ∨
      ∃ target y, t.resolveFrom c i.path = .ok target ∧ t.symbols[target]? = some y ∧
        t.SeesSymbol c target ∧ t.lookupIn c i.name = none ∧ imported t (c, i) = bound t c i y := by
  unfold resolves imported
  cases hr : t.resolveFrom c i.path with
  | error fault => exact .inl ⟨.inl rfl, rfl⟩
  | ok target =>
    obtain ⟨y, hy, hsees⟩ := h.resolveFrom_sees hr
    unfold Table.declareAlias
    simp only [StateT.run_bind, StateT.run_get, pure_bind]
    rw [Table.symbol?_natCast, hy]
    rw [StateT.run_bind, h.declareIn_eq hc]
    cases hl : t.lookupIn c i.name with
    | some previous => exact .inl ⟨.inr rfl, rfl⟩
    | none => exact .inr ⟨target, y, rfl, hy, ⟨y, hy, hsees⟩, rfl, rfl⟩

/-- A table that is related to itself has no imports waiting. -/
abbrev NoneWaiting (t : Table) : Prop := t.Renamed (Equiv.refl Nat) Cleared t

/-- Names lead to symbols of the table. -/
theorem lookup_lt (h : t.Sound) {m : Nat} {s : Scope} (hs : t.scopes[m]? = some s)
    (hl : s.names.lookup name = some id) : id < t.symbols.size := by
  obtain ⟨y, hy, -⟩ := h.name_symbol hs _ (mem_of_lookup_name hl)
  exact lt_of_get? hy

theorem lookup_snoc_of_ne {names : List (String × Nat)} {other : String} (hne : name ≠ other) :
    (names ++ [(other, id)]).lookup name = names.lookup name := by
  rw [lookup_append, lookup_cons, beq_false_of_ne hne]
  simp

/-- Names other than that of the import lead where they led before. -/
theorem sameScopes_bound (h : t.Sound) (hy : y.id < t.symbols.size) :
    t.SameScopes (Equiv.refl Nat) (· < t.symbols.size) (fun m name => c = m → name ≠ i.name)
      (bound t c i y) where
  scopes_size := by
    show (t.updateScope c _).scopes.size = _
    simp [updateScope]
  scope := by
    intro m s s' hs hs'
    rw [getElem?_bound_scopes, hs] at hs'
    obtain rfl := some.inj hs'
    refine ⟨by dsimp only; split <;> rfl, by dsimp only; split <;> rfl, fun name hname => ⟨?_, ?_⟩⟩
    · dsimp only
      split
      · next hm => simp [lookup_snoc_of_ne (hname hm)]
      · simp
    · exact fun id hid => lookup_lt h hs hid
  symbol_face k hk := by
    show ((bound t c i y).symbol k).face = _
    rw [Table.symbol, Table.symbol, Array.getD_eq_getD_getElem?, Array.getD_eq_getD_getElem?,
      getElem?_bound_symbols hy, if_neg hk.ne]
    cases t.symbols[k]? with
    | none => rfl
    | some x =>
      split <;> rfl

/-- An import that avoids the name of another one stands for the same before and after it. -/
theorem resolveFrom_bound (h : t.Sound) (hs : NoneWaiting t) (hy : y.id < t.symbols.size)
    (ha : Avoids (c != 0) i j) :
    Matches (fun a b => b = a) (t.resolveFrom c j.path) ((bound t c i y).resolveFrom c j.path) := by
  refine ((sameScopes_bound h hy).facing.resolveFrom_matches rfl ?_ ?_).imp fun _ _ hid => hid.1
  · rintro first hfirst m - rfl
    exact ha.1 hfirst
  · rintro name hname k m hm rfl rfl
    have hne : c ≠ 0 := fun h0 => hs.symbol_members_ne k (h0 ▸ hm)
    exact ha.2 (by simpa using hne) hname

theorem lookupIn_bound (hne : name ≠ i.name) (m : Nat) :
    (bound t c i y).lookupIn m name = t.lookupIn m name := by
  unfold lookupIn
  rw [scope?_natCast, scope?_natCast, getElem?_bound_scopes]
  cases t.scopes[m]? with
  | none => rfl
  | some s =>
    dsimp only [map_some]
    split
    · exact lookup_snoc_of_ne hne
    · rfl

theorem symbols_size_bound : (bound t c i y).symbols.size = t.symbols.size + 1 := by
  simp [bound, markUsed, withAlias, Table.updateSymbol, withSymbol, updateScope]

theorem scopes_size_bound : (bound t c i y).scopes.size = t.scopes.size := by
  show (t.updateScope c _).scopes.size = _
  simp [updateScope]

theorem getElem?_bound_bound_scopes (m : Nat) :
    (bound (bound t c i y) c j z).scopes[m]? = (t.scopes[m]?).map fun s =>
      if c = m then
        { s with names := s.names ++ [(i.name, t.symbols.size)] ++ [(j.name, t.symbols.size + 1)] }
      else s := by
  rw [getElem?_bound_scopes, getElem?_bound_scopes, symbols_size_bound]
  cases t.scopes[m]? with
  | none => rfl
  | some s => by_cases hm : c = m <;> simp [hm]

/-- The symbols after two imports: the two names are new, and their targets are used. -/
theorem getElem?_bound_bound_symbols (hy : y.id < t.symbols.size)
    (hz : z.id < t.symbols.size) (k : Nat) :
    (bound (bound t c i y) c j z).symbols[k]? =
      if k = t.symbols.size + 1 then some (aliasSymbol (t.symbols.size + 1) j.name c j.pos z)
      else if k = t.symbols.size then some (aliasSymbol t.symbols.size i.name c i.pos y)
      else (t.symbols[k]?).map fun x =>
        if y.id = k ∨ z.id = k then { x with used := true } else x := by
  rw [getElem?_bound_symbols (by rw [symbols_size_bound]; omega), symbols_size_bound,
    getElem?_bound_symbols hy]
  by_cases hk : k = t.symbols.size + 1
  · rw [if_pos hk, if_pos hk]
  rw [if_neg hk, if_neg hk]
  by_cases hk : k = t.symbols.size
  · rw [if_pos hk, if_pos hk]
    simp [hk, hz.ne]
  rw [if_neg hk, if_neg hk]
  cases t.symbols[k]? with
  | none => rfl
  | some x => by_cases hyk : y.id = k <;> by_cases hzk : z.id = k <;> simp [hyk, hzk]

/-- A symbol knows symbols of the table only. -/
theorem renamed_eq_self {σ : Equiv.Perm Nat} (h : t.Sound) {k : Nat} {x : Symbol}
    (hx : t.symbols[k]? = some x) (hσ : ∀ k, k < t.symbols.size → σ k = k) : x.renamed σ = x := by
  have hlt : ∀ {k : Nat} {x : Symbol}, t.symbols[k]? = some x → k < t.symbols.size :=
    fun hx => lt_of_get? hx
  have hid : σ x.id = x.id := by
    rw [h.symbol_id hx]
    exact hσ k (hlt hx)
  have halias : x.aliasOf.map σ = x.aliasOf := by
    cases ha : x.aliasOf with
    | none => rfl
    | some a =>
      obtain ⟨y, hy, -⟩ := (h.links hx).target_seen a ha
      exact congrArg some (hσ a (hlt hy))
  unfold Symbol.renamed
  rw [hid, halias]

theorem swap_apply_lt {n k : Nat} (hk : k < n) : Equiv.swap n (n + 1) k = k :=
  Equiv.swap_apply_of_ne_of_ne (by omega) (by omega)

/-- Two names added to a scope in either order. -/
theorem lookup_snoc_swap {names : List (String × Nat)} {a b : String} {n : Nat} (hab : a ≠ b)
    (hlt : ∀ {name id}, names.lookup name = some id → id < n) (name : String) :
    (names ++ [(b, n)] ++ [(a, n + 1)]).lookup name =
      ((names ++ [(a, n)] ++ [(b, n + 1)]).lookup name).map (Equiv.swap n (n + 1)) := by
  simp only [lookup_append, lookup_cons, lookup_nil]
  cases hl : names.lookup name with
  | some id => simp [swap_apply_lt (hlt hl)]
  | none =>
    by_cases ha : name = a
    · subst ha
      simp [beq_false_of_ne hab]
    · by_cases hb : name = b
      · subst hb
        simp [beq_false_of_ne ha]
      · simp [beq_false_of_ne ha, beq_false_of_ne hb]

/-! The names of two imports, added in either order: the symbols of the names change places. -/

section

variable (hy : y.id < t.symbols.size) (hz : z.id < t.symbols.size)
include hy hz

theorem symbol_bound_swap (h : t.Sound) (k : Nat) :
    (bound (bound t c j z) c i y).symbols[Equiv.swap t.symbols.size (t.symbols.size + 1) k]? =
      ((bound (bound t c i y) c j z).symbols[k]?).map
        (Symbol.renamed (Equiv.swap t.symbols.size (t.symbols.size + 1))) := by
  rw [getElem?_bound_bound_symbols hz hy, getElem?_bound_bound_symbols hy hz]
  rcases lt_trichotomy k t.symbols.size with hk | rfl | hk
  · rw [swap_apply_lt hk, if_neg (by omega), if_neg (by omega), if_neg (by omega),
      if_neg (by omega)]
    cases hx : t.symbols[k]? with
    | none => rfl
    | some x =>
      have hx' := renamed_eq_self h hx fun _ => swap_apply_lt
      simp only [map_some, or_comm (a := z.id = k)]
      split
      · exact congrArg (fun x : Symbol => some { x with used := true }) hx'.symm
      · rw [hx']
  · simp [aliasSymbol, Symbol.renamed, swap_apply_lt hy]
  · by_cases hk' : k = t.symbols.size + 1
    · subst hk'
      simp [aliasSymbol, Symbol.renamed, swap_apply_lt hz]
    · rw [Equiv.swap_apply_of_ne_of_ne (by omega) hk', if_neg hk', if_neg (by omega), if_neg hk',
        if_neg (by omega), Array.getElem?_eq_none (by omega)]
      rfl

/-- What changes places are the new names, which stand for other symbols. -/
theorem aliasOf_bound_swap {k : Nat} (hk : Equiv.swap t.symbols.size (t.symbols.size + 1) k ≠ k) :
    ∃ x, (bound (bound t c i y) c j z).symbols[k]? = some x ∧ x.aliasOf.isSome = true := by
  rw [getElem?_bound_bound_symbols hy hz]
  by_cases hk₁ : k = t.symbols.size + 1
  · exact ⟨_, if_pos hk₁, rfl⟩
  · rw [if_neg hk₁]
    by_cases hk₂ : k = t.symbols.size
    · exact ⟨_, if_pos hk₂, rfl⟩
    · exact absurd (Equiv.swap_apply_of_ne_of_ne hk₂ hk₁) hk

theorem members_ne_bound_bound (hs : NoneWaiting t) (hym : y.members ≠ some 0)
    (hzm : z.members ≠ some 0)
    {k : Nat} {x : Symbol} (hx : (bound (bound t c i y) c j z).symbols[k]? = some x) :
    x.members ≠ some 0 := by
  rw [getElem?_bound_bound_symbols hy hz] at hx
  split at hx
  · obtain rfl := some.inj hx
    exact hzm
  split at hx
  · obtain rfl := some.inj hx
    exact hym
  obtain ⟨x', hx', rfl⟩ := map_eq_some_iff.mp hx
  have hne := hs.members_ne hx'
  split <;> exact hne

/-- **Two imports in either order** lead to the same table, but for the ids of the two names. -/
theorem bound_swap (h : t.Sound) (hs : NoneWaiting t) (hym : y.members ≠ some 0)
    (hzm : z.members ≠ some 0)
    (hne : i.name ≠ j.name) :
    (bound (bound t c i y) c j z).Renamed (Equiv.swap t.symbols.size (t.symbols.size + 1)) Cleared
      (bound (bound t c j z) c i y) where
  current_eq := rfl
  scopes_size := by simp only [scopes_size_bound]
  scope := by
    intro m s s' hs' hs''
    rw [getElem?_bound_bound_scopes] at hs' hs''
    obtain ⟨x, hx, rfl⟩ := map_eq_some_iff.mp hs'
    rw [hx] at hs''
    obtain rfl := some.inj hs''
    have hlt : ∀ {name id}, x.names.lookup name = some id → id < t.symbols.size := lookup_lt h hx
    have hclear := (hs.scope hx hx).2
    -- the scope of the imports has both names in the end, in one order or the other
    split
    · exact ⟨⟨rfl, rfl, lookup_snoc_swap hne hlt⟩, hclear⟩
    · refine ⟨⟨rfl, rfl, fun name => ?_⟩, hclear⟩
      cases hl : x.names.lookup name with
      | some id => simp [swap_apply_lt (hlt hl)]
      | none => rfl
  symbols_size := by simp only [symbols_size_bound]
  symbol_eq := symbol_bound_swap hy hz h
  moved _ := aliasOf_bound_swap hy hz
  fresh := by
    simp only [scopes_size_bound]
    exact hs.fresh
  nonempty := by
    simp only [scopes_size_bound]
    exact hs.nonempty
  members_ne := members_ne_bound_bound hy hz hs hym hzm

end

/-! ## Two imports -/

theorem sound_imported (h : t.Sound) (hc : c < t.scopes.size) (i : Import) :
    (imported t (c, i)).Sound ∧ t.Grows (imported t (c, i)) := by
  rcases imported_cases h hc i with ⟨-, hidle⟩ | ⟨target, y, -, hy, ⟨y', hy', hsees⟩, hl, hbound⟩
  · rw [hidle]
    exact ⟨h, .refl t⟩
  · obtain rfl := mem_unique hy hy'
    obtain ⟨hsound, hgrows⟩ := sound_withAlias h hc hy hsees i.name i.pos
      (h.toConsistent.withSymbol hc hl y.kind i.pos)
    rw [hbound]
    exact ⟨hsound.markUsed _, hgrows.trans (Table.grows_markUsed _ _)⟩

theorem noneWaiting_imported (hs : NoneWaiting t) (e : Nat × Import) : NoneWaiting (imported t e) :=
  (imported_mirrors hs e).1

/-- An import that adds no name. -/
def Idle (t : Table) (c : Nat) (i : Import) : Prop :=
  resolves t (c, i) = false ∨ (t.lookupIn c i.name).isSome = true

theorem imported_of_idle (h : t.Sound) (hc : c < t.scopes.size) (hidle : Idle t c i) :
    imported t (c, i) = t := by
  rcases imported_cases h hc i with ⟨-, hsame⟩ | ⟨target, y, hr, -, -, hl, -⟩
  · exact hsame
  · rcases hidle with hidle | hidle
    · simp [resolves, hr, Except.isOk, Except.toBool] at hidle
    · simp [hl] at hidle

theorem resolves_bound (h : t.Sound) (hs : NoneWaiting t) (hy : y.id < t.symbols.size)
    (ha : Avoids (c != 0) i j) : resolves (bound t c i y) (c, j) = resolves t (c, j) := by
  have hmatch := resolveFrom_bound h hs hy ha
  unfold resolves
  revert hmatch
  generalize t.resolveFrom c j.path = x
  generalize (bound t c i y).resolveFrom c j.path = x'
  rintro (⟨rfl⟩ | _) <;> rfl

theorem idle_bound_iff (h : t.Sound) (hs : NoneWaiting t) (hy : y.id < t.symbols.size)
    (ha : Apart (c != 0) i j) : Idle (bound t c i y) c j ↔ Idle t c j := by
  unfold Idle
  rw [resolves_bound h hs hy ha.right, lookupIn_bound ha.name_ne.symm]

/-- The second of two imports adds its name for the symbol it stood for before the first one. -/
theorem imported_bound (h : t.Sound) (hs : NoneWaiting t) (hc : c < t.scopes.size)
    (hy : y.id < t.symbols.size)
    (ha : Apart (c != 0) i j) (hsound : (bound t c i y).Sound) {target : Nat}
    (hr : t.resolveFrom c j.path = .ok target) (hz : t.symbols[target]? = some z)
    (hl : t.lookupIn c j.name = none) :
    imported (bound t c i y) (c, j) = bound (bound t c i y) c j z := by
  have hc' : c < (bound t c i y).scopes.size := by rwa [scopes_size_bound]
  rcases imported_cases hsound hc' j with ⟨hidle, -⟩ | ⟨target', z', hr', hz', -, -, hbound⟩
  · have hactive : ¬ Idle t c j := by
      simp [Idle, resolves, hr, hl, Except.isOk, Except.toBool]
    exact absurd ((idle_bound_iff h hs hy ha).mp hidle) hactive
  · have hmatch := resolveFrom_bound h hs hy ha.right
    rw [hr, hr'] at hmatch
    obtain rfl : target' = target := by
      cases hmatch with
      | ok heq => exact heq
    have hlt := lt_of_get? hz
    rw [getElem?_bound_symbols hy, if_neg hlt.ne, hz] at hz'
    obtain rfl := some.inj hz'
    rw [hbound]
    -- Being used is not passed on to the new name.
    split <;> rfl

/-- Two imports that are apart can be resolved in either order. -/
theorem imported_swap (h : t.Sound) (hs : NoneWaiting t) (hc : c < t.scopes.size)
    (ha : Apart (c != 0) i j) :
    (∃ τ : Equiv.Perm Nat, (∀ k < t.symbols.size, τ k = k) ∧
      (imported (imported t (c, i)) (c, j)).Renamed τ Cleared
        (imported (imported t (c, j)) (c, i))) ∧
      resolves (imported t (c, i)) (c, j) = resolves t (c, j) ∧
      resolves (imported t (c, j)) (c, i) = resolves t (c, i) := by
  have hlt : ∀ {target : Nat} {y : Symbol}, t.symbols[target]? = some y →
    y.id < t.symbols.size := by
    intro target y hy
    rw [h.symbol_id hy]
    exact lt_of_get? hy
  obtain ⟨hsi, -⟩ := sound_imported h hc i
  obtain ⟨hsj, -⟩ := sound_imported h hc j
  have hself := fun e => noneWaiting_imported hs e
  -- each of the two binds a name or does nothing, and the other one does not change which
  rcases imported_cases h hc i with ⟨hidle, hi⟩ | ⟨a, y, hra, hy, -, hla, hi⟩ <;>
    rcases imported_cases h hc j with ⟨hidle', hj⟩ | ⟨b, z, hrb, hz, -, hlb, hj⟩
  · rw [hi, hj, hi]
    exact ⟨⟨_, fun _ _ => rfl, hs⟩, rfl, rfl⟩
  · rw [hi]
    have hsame : imported (imported t (c, j)) (c, i) = imported t (c, j) := by
      rw [hj] at hsj ⊢
      exact imported_of_idle hsj (by rwa [scopes_size_bound])
        ((idle_bound_iff h hs (hlt hz) ha.symm).mpr hidle)
    rw [hsame]
    exact ⟨⟨_, fun _ _ => rfl, hself (c, j)⟩, rfl, by rw [hj, resolves_bound h hs (hlt hz) ha.left]⟩
  · rw [hj]
    have hsame : imported (imported t (c, i)) (c, j) = imported t (c, i) := by
      rw [hi] at hsi ⊢
      exact imported_of_idle hsi (by rwa [scopes_size_bound])
        ((idle_bound_iff h hs (hlt hy) ha).mpr hidle')
    rw [hsame]
    exact ⟨⟨_, fun _ _ => rfl, hself (c, i)⟩,
      by rw [hi, resolves_bound h hs (hlt hy) ha.right], rfl⟩
  -- both bind a name: the new symbols have changed places
  · rw [hi] at hsi
    rw [hj] at hsj
    rw [hi, hj, resolves_bound h hs (hlt hy) ha.right, resolves_bound h hs (hlt hz) ha.left,
      imported_bound h hs hc (hlt hy) ha hsi hrb hz hlb,
      imported_bound h hs hc (hlt hz) ha.symm hsj hra hy hla]
    have hswap :=
      bound_swap (c := c) (hlt hy) (hlt hz) h hs (hs.members_ne hy) (hs.members_ne hz) ha.name_ne
    exact ⟨⟨_, fun k hk => Equiv.swap_apply_of_ne_of_ne (by omega) (by omega), hswap⟩, rfl, rfl⟩

end

/-! ## All imports of a round -/

/-- Imports in another order within each scope. -/
inductive Shuffled : List (Nat × Import) → List (Nat × Import) → Prop where
  | nil : Shuffled [] []
  | cons (e : Nat × Import) {es es' : List (Nat × Import)} (h : Shuffled es es') :
    Shuffled (e :: es) (e :: es')
  | swap (c : Nat) (i j : Import) (es : List (Nat × Import)) :
    Shuffled ((c, i) :: (c, j) :: es) ((c, j) :: (c, i) :: es)
  | trans {es es' es'' : List (Nat × Import)} (h : Shuffled es es') (h' : Shuffled es' es'') :
    Shuffled es es''

/-- Imports of the same scope are apart. -/
abbrev AllApart (es : List (Nat × Import)) : Prop :=
  es.Pairwise fun e e' => e.1 = e'.1 → Apart (e.1 != 0) e.2 e'.2

namespace Shuffled

variable {es es' fs fs' : List (Nat × Import)}

theorem refl (es : List (Nat × Import)) : Shuffled es es := by
  induction es with
  | nil => exact .nil
  | cons e _ ih => exact .cons e ih

theorem perm (h : Shuffled es es') : es.Perm es' := by
  induction h with
  | nil => exact .nil
  | cons e _ ih => exact .cons e ih
  | swap c i j es => exact .swap _ _ es
  | trans _ _ ih ih' => exact ih.trans ih'

theorem append_right (h : Shuffled es es') (fs : List (Nat × Import)) :
    Shuffled (es ++ fs) (es' ++ fs) := by
  induction h with
  | nil => exact refl fs
  | cons e _ ih => exact .cons e ih
  | swap c i j es => exact .swap c i j (es ++ fs)
  | trans _ _ ih ih' => exact .trans ih ih'

theorem append (h : Shuffled es es') (h' : Shuffled fs fs') : Shuffled (es ++ fs) (es' ++ fs') := by
  have hleft : ∀ es, Shuffled (es ++ fs) (es ++ fs') := by
    intro es
    induction es with
    | nil => exact h'
    | cons e _ ih => exact .cons e ih
  exact (h.append_right fs).trans (hleft es')

/-- The imports of one scope. -/
theorem of_perm (c : Nat) {is is' : List Import} (h : is.Perm is') :
    Shuffled (is.map fun i => (c, i)) (is'.map fun i => (c, i)) := by
  induction h with
  | nil => exact .nil
  | cons i _ ih => exact .cons (c, i) ih
  | swap i j is => exact .swap c j i _
  | trans _ _ ih ih' => exact .trans ih ih'

theorem allApart (h : Shuffled es es') (ha : AllApart es) : AllApart es' :=
  h.perm.pairwise ha fun h heq => (heq ▸ (h heq.symm).symm :)

end Shuffled

theorem waiting_sublist (t : Table) (es : List (Nat × Import)) : (waiting t es).Sublist es := by
  induction es generalizing t with
  | nil => exact .slnil
  | cons e rest ih =>
    rw [waiting]
    split
    · exact .cons e (ih _)
    · exact .cons_cons e (ih _)

/-- Imports that are apart can be resolved in any order: the tables are the same up to the ids of
new names, and what is left is the same in another order. -/
theorem allImported_shuffled {es es' : List (Nat × Import)} (hes : Shuffled es es')
    (ha : AllApart es)
    {t : Table} (h : t.Sound) (hs : NoneWaiting t) (hlt : ∀ e ∈ es, e.1 < t.scopes.size) :
    (∃ τ : Equiv.Perm Nat, (∀ k < t.symbols.size, τ k = k) ∧
      (allImported t es).Renamed τ Cleared (allImported t es')) ∧
      Shuffled (waiting t es) (waiting t es') := by
  -- by induction on the shuffle; a swap renames the two new names, and the rest mirrors it
  induction hes generalizing t with
  | nil => exact ⟨⟨_, fun _ _ => rfl, hs⟩, .nil⟩
  | cons e _ ih =>
    rw [forall_mem_cons] at hlt
    obtain ⟨hsound, hgrows⟩ := sound_imported h hlt.1 e.2
    obtain ⟨⟨τ, hfix, hτ⟩, hwaiting⟩ := ih ha.tail hsound (noneWaiting_imported hs e) fun e' he' =>
      (hlt.2 e' he').trans_le hgrows.scopes_le
    refine ⟨⟨τ, fun k hk => hfix k (hk.trans_le hgrows.symbols_le), hτ⟩, ?_⟩
    rw [waiting, waiting]
    split
    · exact hwaiting
    · exact .cons e hwaiting
  | swap c i j es =>
    have hc : c < t.scopes.size := hlt (c, i) mem_cons_self
    have hapart : Apart (c != 0) i j := rel_of_pairwise_cons ha mem_cons_self rfl
    obtain ⟨⟨τ, hfix, hτ⟩, hij, hji⟩ := imported_swap h hs hc hapart
    obtain ⟨hrest, hwaiting⟩ := allImported_mirrors hτ es
    refine ⟨⟨τ, hfix, hrest⟩, ?_⟩
    simp only [waiting, hij, hji, hwaiting]
    cases resolves t (c, i) <;> cases resolves t (c, j)
    · exact .swap c i j _
    all_goals exact .refl _
  | trans hes _ ih ih' =>
    obtain ⟨⟨τ, hfix, hτ⟩, hwaiting⟩ := ih ha h hs hlt
    obtain ⟨⟨τ', hfix', hτ'⟩, hwaiting'⟩ :=
      ih' (hes.allApart ha) h hs fun e he => hlt e (hes.perm.mem_iff.mpr he)
    refine ⟨⟨τ.trans τ', fun k hk => ?_, hτ.trans (fun h h' => ⟨h.1, h'.2⟩) hτ'⟩,
      hwaiting.trans hwaiting'⟩
    rw [Equiv.trans_apply, hfix k hk, hfix' k hk]

/-- A round over imports that are apart, in any order and from tables that are the same up to a
renaming. -/
theorem round_shuffled {es es' : List (Nat × Import)} (hes : Shuffled es es') (ha : AllApart es)
    {σ : Equiv.Perm Nat} {t t' : Table} (h : t.Sound) (hr : t.Renamed σ Cleared t')
    (hlt : ∀ e ∈ es, e.1 < t.scopes.size) :
    (∃ τ : Equiv.Perm Nat, (∀ k < t.symbols.size, τ k = σ k) ∧
      (allImported t es).Renamed τ Cleared (allImported t' es')) ∧
      Shuffled (waiting t es) (waiting t' es') := by
  obtain ⟨⟨τ, hfix, hτ⟩, hwaiting⟩ := allImported_shuffled hes ha h hr.noneWaiting hlt
  obtain ⟨hsame, hleft⟩ := allImported_mirrors hr es'
  refine ⟨⟨τ.trans σ, fun k hk => ?_, hτ.trans (fun h h' => ⟨h.1, h'.2⟩) hsame⟩, ?_⟩
  · rw [Equiv.trans_apply, hfix k hk]
  · rwa [hleft]

end Analysis

end UnitCheck
