import UnitCheck.Checking.Store
import UnitCheck.Proofs.Scoping.Qualified
import UnitCheck.Proofs.Scoping.Soundness
import UnitCheck.Proofs.Tree.Places

/-!
# Orderly stores

`Store.Orderly A` — all symbols and imports stand at places that the sites `A` cover, and the named
types are the types of the symbols that declared them: the type of a structure, class or enumeration
is named after its symbol, and the list of nominal types knows which symbol that is. This takes
proper names, so the sites have to admit no others.

Every operation of an analysis keeps a store orderly. How far it may have come is said step by step.

* `Store.Follows A` — scopes keep their parents, and symbols keep their names and what they are.
* `Store.Returns A` — and the current scope is the same.
* `Store.Completes A` — and every structure, class and enumeration that is new has its type, if the
  sites ask for that. Where one of them is still owed its type, this is said by `Store.Owes`.
-/

namespace UnitCheck

open List Option

variable {i id : Nat} {y y' : Symbol} {f : Symbol → Symbol} {owed : Option Nat}

/-- Whether a symbol of this kind declares a named type. -/
def SymbolKind.isNominal : SymbolKind → Bool
  | structType | classType | enumType => true
  | _ => false

/-! ## What is kept -/

/-- A symbol that declares a named type: a structure, class or enumeration that is no other name for
one. -/
structure Symbol.DeclaresType (y : Symbol) : Prop where
  nominal : y.kind.isNominal = true
  original : y.aliasOf = none

theorem Symbol.Stays.declaresType (h : y.Stays y') (hy : y'.DeclaresType) : y.DeclaresType :=
  ⟨h.kind_eq ▸ hy.nominal, h.alias_eq ▸ hy.original⟩

namespace Table

theorem Grows.keepsNames {t t' : Table} (h : t.Grows t') : t.KeepsNames t' := by
  intro i y hy
  obtain ⟨y', hy', hst⟩ := h.symbol hy
  exact ⟨y', hy', hst.name_eq, hst.scope_eq, hst.members_eq⟩

/-- A symbol that was there before, as it is now. -/
theorem Grows.stays {t t' : Table} (h : t.Grows t')
    (hy : t.symbols[i]? = some y) (hy' : t'.symbols[i]? = some y') :
    y.Stays y' := by
  obtain ⟨z, hz, hl⟩ := h.symbol hy
  obtain rfl := mem_unique hz hy'
  exact hl

/-- Structures, classes and enumerations keep their types. -/
def KeepsTypes (t t' : Table) : Prop := ∀ (i : Nat) (y y' : Symbol), t.symbols[i]? = some y →
  t'.symbols[i]? = some y' → y.kind.isNominal = true → y'.type = y.type

/-- They keep their types, and those that are new have one, but for a symbol that is owed its
type. -/
structure Settles (t : Table) (owed : Option Nat) (t' : Table) : Prop where
  kept : t.KeepsTypes t'
  typed : ∀ (i : Nat) (y : Symbol), t'.symbols[i]? = some y → y.DeclaresType → y.type = none →
    i < t.symbols.size ∨ owed = some i

/-- A symbol that is owed its type is still owed it after steps that settle everything else. -/
theorem Settles.trans {t t' t'' : Table} (h : t.Settles owed t') (hl : t.Grows t')
    (h' : t'.Settles none t'')
    (hl' : t'.Grows t'') : t.Settles owed t'' where
  kept i y y'' hy hy'' hk := by
    obtain ⟨y', hy', hstays⟩ := hl.symbol hy
    have hk' : y'.kind.isNominal = true := hstays.kind_eq ▸ hk
    exact (h'.kept i y' y'' hy' hy'' hk').trans (h.kept i y y' hy hy' hk)
  typed i y hy hdeclares htype := by
    have hlt := (h'.typed i y hy hdeclares htype).resolve_right (by simp)
    have hy' := Array.getElem?_eq_getElem hlt
    have hdeclares' := (hl'.stays hy' hy).declaresType hdeclares
    exact h.typed i _ hy' hdeclares' ((h'.kept i _ y hy' hy hdeclares'.nominal).symm.trans htype)

end Table

/-! ## Orderly stores -/

/-- Only names are admitted, so that qualified names can be taken apart. -/
def Sites.Proper (A : Sites) : Prop := ∀ name, A.names name → Text.isName name = true

theorem Sites.not_proper_any : ¬ Sites.any.Proper := fun h => absurd (h "" trivial) (by decide)

namespace Store

structure Orderly (A : Sites) (s : Store) : Prop where
  proper : A.Proper
  symbol_pos : ∀ {i : Nat} {y : Symbol}, s.table.symbols[i]? = some y → A.covers y.pos
  import_pos : ∀ {i : Nat} {c : Scope}, s.table.scopes[i]? = some c →
    ∀ e ∈ c.imports, A.covers e.pos
  typed : ∀ {i : Nat} {y : Symbol}, s.table.symbols[i]? = some y → y.DeclaresType →
    ∀ t, y.type = some t → ∃ name args, t = .named name args ∧ (name, i) ∈ s.nominal
  nominal : ∀ e ∈ s.nominal, ∃ y, s.table.Names e.1 e.2 y

/-- If any name is admitted, no store is orderly. -/
theorem not_orderly_any {s : Store} : ¬ s.Orderly .any := fun h => Sites.not_proper_any h.proper

structure Follows (A : Sites) (s s' : Store) : Prop where
  orderly : s'.Orderly A
  grows : s.table.Grows s'.table

structure Returns (A : Sites) (s s' : Store) : Prop extends Follows A s s' where
  current : s'.table.current = s.table.current

structure Owes (A : Sites) (s : Store) (owed : Option Nat) (s' : Store) :
    Prop extends Returns A s s' where
  settles : A.settled → s.table.Settles owed s'.table

abbrev Completes (A : Sites) (s s' : Store) : Prop := s.Owes A none s'

theorem orderly_empty {A : Sites} (hA : A.Proper) : Orderly A {} where
  proper := hA
  symbol_pos h := by simp at h
  import_pos := by
    intro i c hc e he
    have hzero : ({} : Table).scopes[i]? = some c := hc
    cases i with
    | zero =>
      obtain rfl := some.inj hzero
      cases he
    | succ i => simp at hzero
  typed h := by simp at h
  nominal _ h := by cases h

section

variable {A : Sites} {s s' s'' : Store}

theorem Follows.trans (h : Follows A s s') (h' : Follows A s' s'') : Follows A s s'' :=
  ⟨h'.orderly, h.grows.trans h'.grows⟩

theorem Returns.trans (h : Returns A s s') (h' : Returns A s' s'') : Returns A s s'' :=
  ⟨h.toFollows.trans h'.toFollows, h'.current.trans h.current⟩

theorem Owes.trans (h : s.Owes A owed s') (h' : s'.Completes A s'') : s.Owes A owed s'' :=
  ⟨h.toReturns.trans h'.toReturns, fun hs => (h.settles hs).trans h.grows (h'.settles hs) h'.grows⟩

section

variable (h : s.Orderly A)
include h

theorem Orderly.aside (ht : s'.table = s.table) (hn : s'.nominal = s.nominal) :
    Completes A s s' where
  orderly := by
    obtain ⟨hproper, hsymbol, himport, htyped, hnominal⟩ := h
    simp only [← ht, ← hn] at hsymbol himport htyped hnominal
    exact ⟨hproper, hsymbol, himport, htyped, hnominal⟩
  grows := by
    rw [ht]
    exact .refl _
  current := by rw [ht]
  settles _ := by
    rw [ht]
    refine ⟨fun i y y' hy hy' _ => ?_, fun i y hy _ _ => .inl (lt_of_get? hy)⟩
    rw [mem_unique hy hy']

theorem Completes.refl : Completes A s s := h.aside rfl rfl

/-! ## Sites that do not ask for types -/

theorem Orderly.loosen : s.Orderly A.loose :=
  ⟨h.proper, h.symbol_pos, h.import_pos, h.typed, h.nominal⟩

omit h in
theorem Orderly.tighten (h : s.Orderly A.loose) : s.Orderly A :=
  ⟨h.proper, h.symbol_pos, h.import_pos, h.typed, h.nominal⟩

omit h in
theorem Returns.loosen (h : Returns A s s') : Completes A.loose s s' :=
  ⟨⟨⟨h.orderly.loosen, h.grows⟩, h.current⟩, False.elim⟩

/-! ## Other tables -/

/-- Another table: symbols that are new stand at their places, and none of them has a named type
yet. -/
theorem Orderly.withTable {t : Table} (hl : s.table.Grows t) (hkept : s.table.KeepsTypes t)
    (hnew : ∀ {i : Nat} {y : Symbol}, t.symbols[i]? = some y → s.table.symbols.size ≤ i →
      A.covers y.pos ∧ (y.DeclaresType → y.type = none))
    (himport : ∀ {i : Nat} {c : Scope}, t.scopes[i]? = some c → ∀ e ∈ c.imports, A.covers e.pos) :
    Follows A s { s with table := t } := by
  refine ⟨⟨h.proper, ?_, himport, ?_, ?_⟩, hl⟩
  · intro i y hy
    by_cases hi : i < s.table.symbols.size
    · have hx := Array.getElem?_eq_getElem hi
      rw [(hl.stays hx hy).pos_eq]
      exact h.symbol_pos hx
    · exact (hnew hy (by omega)).1
  · intro i y hy hdeclares u hu
    by_cases hi : i < s.table.symbols.size
    · have hx := Array.getElem?_eq_getElem hi
      have hdeclares' := (hl.stays hx hy).declaresType hdeclares
      exact h.typed hx hdeclares' u ((hkept i _ y hx hy hdeclares'.nominal).symm.trans hu)
    · rw [(hnew hy (by omega)).2 hdeclares] at hu
      cases hu
  · intro e he
    obtain ⟨y, hy⟩ := h.nominal e he
    exact hy.mono hl.keepsNames

/-! ## Changes to symbols -/

/-- A change to a symbol that leaves the types of structures, classes and enumerations alone. -/
theorem Orderly.updateSymbol (hf : ∀ y, s.table.symbols[id]? = some y → y.Stays (f y))
    (htype : ∀ y, s.table.symbols[id]? = some y → y.kind.isNominal = true → (f y).type = y.type) :
    Completes A s { s with table := s.table.updateSymbol id f } := by
  have hlt : ∀ {i : Nat} {y : Symbol}, (s.table.updateSymbol id f).symbols[i]? = some y →
      i < s.table.symbols.size := by
    intro i y hy
    rw [Table.getElem?_updateSymbol] at hy
    obtain ⟨x, hx, -⟩ := map_eq_some_iff.mp hy
    exact lt_of_get? hx
  have hkept : s.table.KeepsTypes (s.table.updateSymbol id f) := by
    intro i x y hx hy hk
    rw [Table.getElem?_updateSymbol, hx] at hy
    obtain rfl := some.inj hy
    split
    · next hid => exact htype x (hid ▸ hx) hk
    · rfl
  refine ⟨⟨h.withTable (Table.grows_updateSymbol hf) hkept ?_ h.import_pos, rfl⟩,
    fun _ => ⟨hkept, fun i y hy _ _ => .inl (hlt hy)⟩⟩
  intro i y hy hi
  exact absurd (hlt hy) (by omega)

/-- A symbol is revised; the type of a structure, class or enumeration is kept. -/
theorem Orderly.revise (id : Nat) (hf : Symbol.Amends f)
    (htype : ∀ y, s.table.symbols[id]? = some y → y.kind.isNominal = true → (f y).type = y.type) :
    Completes A s { s with table := s.table.updateSymbol id f } :=
  h.updateSymbol (fun y _ => hf.stays y) htype

theorem Orderly.markUsed (id : Nat) : Completes A s { s with table := s.table.markUsed id } :=
  h.revise id (.of_same fun _ => rfl) fun _ _ _ => rfl

theorem Orderly.setMembers {scope : Nat}
    (hid : ∀ y, s.table.symbols[id]? = some y → y.members = none) :
    Completes A s
      { s with table := s.table.updateSymbol id fun y => { y with members := some scope } } :=
  h.updateSymbol (fun y hy => Symbol.stays_withMembers (hid y hy) scope) fun _ _ _ => rfl

/-! ## New symbols -/

/-- One more symbol at the end of the table. What it may be, and whether its type is owed, is left
to the caller. -/
theorem Orderly.push (t : Table) (hscopes : ∀ {i : Nat} {c : Scope}, s.table.scopes[i]? = some c →
      ∃ c', t.scopes[i]? = some c' ∧ c'.parent = c.parent ∧ c'.kind = c.kind)
    (himports : ∀ {i : Nat} {c' : Scope}, t.scopes[i]? = some c' →
      ∃ c, s.table.scopes[i]? = some c ∧ c'.imports = c.imports)
    (hcurrent : t.current = s.table.current)
    (hold : ∀ i, i ≠ s.table.symbols.size → t.symbols[i]? = s.table.symbols[i]?)
    (hnew : t.symbols[s.table.symbols.size]? = some y) (hpos : A.covers y.pos)
    (htype : y.DeclaresType → y.type = none) :
    s.Owes A (some s.table.symbols.size) { s with table := t } ∧
      ((A.settled → ¬ y.DeclaresType) → s.Completes A { s with table := t }) := by
  -- every symbol of the new table is an old one or the one that was added
  have hcases : ∀ {i : Nat} {z : Symbol}, t.symbols[i]? = some z →
      s.table.symbols[i]? = some z ∨ i = s.table.symbols.size ∧ z = y := by
    intro i z hz
    by_cases hi : i = s.table.symbols.size
    · rw [hi, hnew] at hz
      exact .inr ⟨hi, (some.inj hz).symm⟩
    · rw [hold i hi] at hz
      exact .inl hz
  have hgrows : s.table.Grows t := by
    refine ⟨hscopes, fun {i z} hz => ⟨z, ?_, .refl z⟩⟩
    have hi := lt_of_get? hz
    rw [hold i (by omega), hz]
  have hkept : s.table.KeepsTypes t := by
    intro i z z' hz hz' _
    have hi := lt_of_get? hz
    rw [hold i (by omega), hz] at hz'
    rw [some.inj hz']
  have hreturns : Returns A s { s with table := t } := by
    refine ⟨h.withTable hgrows hkept ?_ ?_, hcurrent⟩
    · intro i z hz hi
      rcases hcases hz with hz | ⟨-, rfl⟩
      · have hlt := lt_of_get? hz
        omega
      · exact ⟨hpos, htype⟩
    · intro i c' hc' e he
      obtain ⟨c, hc, heq⟩ := himports hc'
      rw [heq] at he
      exact h.import_pos hc e he
  refine ⟨⟨hreturns, fun _ => ⟨hkept, fun i z hz _ _ => ?_⟩⟩,
    fun hno => ⟨hreturns, fun hs => ⟨hkept, fun i z hz hdeclares _ => ?_⟩⟩⟩
  · rcases hcases hz with hz | ⟨rfl, -⟩
    · exact .inl (lt_of_get? hz)
    · exact .inr rfl
  · rcases hcases hz with hz | ⟨-, rfl⟩
    · exact .inl (lt_of_get? hz)
    · exact absurd hdeclares (hno hs)

end

section

variable (c : Nat) (name : String) (kind : SymbolKind) (pos : Position)

theorem withSymbol_imports (t : Table) {r' : Scope}
    (hr' : (t.withSymbol c name kind pos).scopes[i]? = some r') :
    ∃ r, t.scopes[i]? = some r ∧ r'.imports = r.imports := by
  obtain ⟨r, hr, rfl⟩ := Table.withSymbol_cases hr'
  refine ⟨r, hr, ?_⟩
  split <;> rfl

variable {kind pos}

/-- A declaration: the type of a structure, class or enumeration is owed, other symbols are
settled. -/
theorem Orderly.withSymbol (h : s.Orderly A) (c : Nat) (name : String) (hpos : A.covers pos) :
    s.Owes A (some s.table.symbols.size) { s with table := s.table.withSymbol c name kind pos } ∧
      ((A.settled → kind.isNominal = false) →
        s.Completes A { s with table := s.table.withSymbol c name kind pos }) := by
  have hpush := h.push _ (s.table.grows_withSymbol c name kind pos).scope
    (withSymbol_imports c name kind pos s.table) rfl
    (fun i hi => by rw [Table.getElem?_withSymbol, if_neg hi])
    (Table.withSymbol_symbol s.table c name kind pos) hpos (fun _ => rfl)
  refine ⟨hpush.1, fun hkind => hpush.2 fun hs hdeclares => ?_⟩
  have hnominal : kind.isNominal = true := hdeclares.nominal
  rw [hkind hs] at hnominal
  cases hnominal

theorem Orderly.declareIn (h : s.Orderly A) (scope : Int) (name : String)
    (hkind : A.settled → kind.isNominal = false) (hpos : A.covers pos) :
    Completes A s { s with table := ((Table.declareIn scope name kind pos).run s.table).2 } := by
  rcases s.table.declareIn_cases scope name kind pos with ⟨f, hrun⟩ | ⟨c, hrun⟩
  · rw [hrun]
    exact .refl h
  · rw [hrun]
    exact (h.withSymbol c name hpos).2 hkind

/-- A declaration with a type, of what has no named type of its own. -/
theorem Orderly.declareTyped (h : s.Orderly A) (name : String) (hkind : kind.isNominal = false)
    (hpos : A.covers pos) (type : Option Ty) (mutable : Bool) : Completes A s
      { s with table := ((Table.declareTyped name kind pos type mutable).run s.table).2 } := by
  unfold Table.declareTyped Table.declare
  simp only [StateT.run_bind, StateT.run_get, pure_bind]
  rcases s.table.declareIn_cases s.table.current name kind pos with ⟨f, hrun⟩ | ⟨c, hrun⟩
  · rw [hrun]
    exact .refl h
  · rw [hrun]
    have hnew := (h.withSymbol c name hpos).2 fun _ => hkind
    refine hnew.trans (hnew.orderly.revise s.table.symbols.size (.of_same fun _ => rfl) ?_)
    intro y hy hnominal
    obtain rfl := mem_unique (Table.withSymbol_symbol s.table c name kind pos) hy
    rw [hkind] at hnominal
    cases hnominal

end

section

variable (h : s.Orderly A)
include h

/-- A name for another symbol takes over its type, which has been settled already. -/
theorem Orderly.declareAlias (scope : Int) (name : String) (target : Int)
    {pos : Position} (hpos : A.covers pos) :
    Completes A s { s with table :=
      ((Table.declareAlias scope name target pos).run s.table).2 } := by
  unfold Table.declareAlias
  simp only [StateT.run_bind, StateT.run_get, pure_bind]
  cases s.table.symbol? target with
  | none => exact .refl h
  | some tgt =>
    rw [StateT.run_bind]
    rcases s.table.declareIn_cases scope name tgt.kind pos with ⟨f, hrun⟩ | ⟨c, hrun⟩
    · rw [hrun]
      exact .refl h
    · rw [hrun]
      -- the new symbol is pushed with what it copies; then the target counts as used
      let copy (y : Symbol) : Symbol :=
        { y with
          type := tgt.type, members := tgt.members, generics := tgt.generics
          mutable := tgt.mutable, initialized := tgt.initialized, shape := tgt.shape
          aliasOf := some tgt.id }
      let t := (s.table.withSymbol c name tgt.kind pos).updateSymbol s.table.symbols.size copy
      have hold : ∀ i, i ≠ s.table.symbols.size → t.symbols[i]? = s.table.symbols[i]? := by
        intro i hi
        rw [Table.getElem?_updateSymbol, Table.getElem?_withSymbol, if_neg hi]
        cases s.table.symbols[i]? with
        | none => rfl
        | some y => rw [map_some, if_neg hi.symm]
      have hnew : t.symbols[s.table.symbols.size]? = some (copy
          { id := s.table.symbols.size, name, kind := tgt.kind, scope := c, pos }) := by
        rw [Table.getElem?_updateSymbol, Table.withSymbol_symbol, map_some, if_pos rfl]
      have halias : ¬ (copy { id := s.table.symbols.size, name, kind := tgt.kind, scope := c, pos }
          ).DeclaresType := by
        intro hdeclares
        cases hdeclares.original
      have hpushed := (h.push t (s.table.grows_withSymbol c name tgt.kind pos).scope
        (withSymbol_imports c name tgt.kind pos s.table) rfl hold hnew hpos
        fun hdeclares => absurd hdeclares halias).2 fun _ => halias
      exact hpushed.trans (hpushed.orderly.markUsed tgt.id)

/-! ## Scopes -/

/-- Other scopes, which keep parents and kinds, and whose imports stand at covered places. -/
theorem Orderly.withScopes (t : Table) (hsymbols : t.symbols = s.table.symbols)
    (hscopes : ∀ {i : Nat} {c : Scope}, s.table.scopes[i]? = some c →
      ∃ c', t.scopes[i]? = some c' ∧ c'.parent = c.parent ∧ c'.kind = c.kind)
    (himports : ∀ {i : Nat} {c' : Scope}, t.scopes[i]? = some c' →
      ∀ e ∈ c'.imports, A.covers e.pos) :
    Follows A s { s with table := t } ∧ s.table.Settles none t := by
  have hlt : ∀ {i : Nat} {y : Symbol}, t.symbols[i]? = some y → i < s.table.symbols.size := by
    intro i y hy
    rw [hsymbols] at hy
    exact lt_of_get? hy
  have hkept : s.table.KeepsTypes t := by
    intro i y y' hy hy' _
    rw [hsymbols] at hy'
    rw [mem_unique hy hy']
  refine ⟨h.withTable
    ⟨hscopes, fun {i y} hy => ⟨y, by rw [hsymbols, hy], .refl y⟩⟩ hkept ?_ himports,
    hkept, fun i y hy _ _ => .inl (hlt hy)⟩
  intro i y hy hi
  exact absurd (hlt hy) (by omega)

theorem Orderly.goto (id : Nat) : Follows A s { s with table := { s.table with current := id } } ∧
      s.table.Settles none { s.table with current := id } :=
  h.withScopes _ rfl (fun hc => ⟨_, hc, rfl, rfl⟩) h.import_pos

theorem Orderly.entered (kind : ScopeKind) : Follows A s { s with table := s.table.entered kind } ∧
      s.table.Settles none (s.table.entered kind) := by
  refine h.withScopes _ rfl (s.table.grows_entered kind).scope fun {i c'} hc' e he => ?_
  rcases Table.entered_cases hc' with ⟨-, rfl⟩ | ⟨c, hc, -, rfl⟩
  · cases he
  · exact h.import_pos hc e he

theorem Orderly.updateScope (id : Nat) {f : Scope → Scope} (hf : Table.Rewrites f)
    (himports : ∀ c : Scope, (∀ e ∈ c.imports, A.covers e.pos) →
      ∀ e ∈ (f c).imports, A.covers e.pos) :
    Completes A s { s with table := s.table.updateScope id f } := by
  have hstep := h.withScopes (s.table.updateScope id f) rfl (Table.grows_updateScope hf).scope ?_
  · exact ⟨⟨hstep.1, rfl⟩, fun _ => hstep.2⟩
  · intro i c' hc'
    rw [Table.getElem?_updateScope] at hc'
    obtain ⟨c, hc, rfl⟩ := map_eq_some_iff.mp hc'
    split
    · exact himports c (h.import_pos hc)
    · exact h.import_pos hc

/-- The imports that are taken stand at covered places, and none are left. -/
theorem Orderly.takeImports : Completes A s { s with table := (Table.takeImports.run s.table).2 } ∧
      ∀ e ∈ (Table.takeImports.run s.table).1, A.covers e.2.pos := by
  have hstep := h.withScopes (Table.takeImports.run s.table).2 rfl ?_ ?_
  · refine ⟨⟨⟨hstep.1, rfl⟩, fun _ => hstep.2⟩, fun e he => ?_⟩
    obtain ⟨c, hc, hmem⟩ := mem_flatMap.mp he
    obtain ⟨i, hi, rfl⟩ := List.mem_map.mp hmem
    obtain ⟨j, hj⟩ := Array.mem_iff_getElem?.mp (Array.mem_toList_iff.mp hc)
    exact h.import_pos hj i hi
  · intro i c hc
    rw [Table.getElem?_takeImports, hc]
    exact ⟨_, rfl, rfl, rfl⟩
  · intro i c' hc' e he
    rw [Table.getElem?_takeImports] at hc'
    obtain ⟨c, hc, rfl⟩ := map_eq_some_iff.mp hc'
    cases he

/-! ## Named types -/

/-- The named type of a symbol is recorded with the symbol, in the table and in the list of nominal
types. -/
theorem Orderly.declareType {name : String} (hname : s.table.Names name id y)
    (args : List Ty) : s.Returns A
      { s with
        table := s.table.updateSymbol id fun y => { y with type := some (.named name args) }
        nominal := (name, id) :: s.nominal } := by
  let t := s.table.updateSymbol id fun y => { y with type := some (.named name args) }
  have hamends : Symbol.Amends fun y : Symbol => { y with type := some (.named name args) } :=
    .of_same fun _ => rfl
  have hback : ∀ {i : Nat} {z : Symbol}, t.symbols[i]? = some z →
    ∃ x, s.table.symbols[i]? = some x ∧
      z = if id = i then { x with type := some (.named name args) } else x := by
    intro i z hz
    rw [Table.getElem?_updateSymbol] at hz
    obtain ⟨x, hx, rfl⟩ := map_eq_some_iff.mp hz
    exact ⟨x, hx, rfl⟩
  have hgrows : s.table.Grows t := Table.grows_updateSymbol fun x _ => hamends.stays x
  refine ⟨⟨⟨h.proper, ?_, h.import_pos, ?_, ?_⟩, hgrows⟩, rfl⟩
  · intro i z hz
    obtain ⟨x, hx, rfl⟩ := hback hz
    have hpos : A.covers x.pos := h.symbol_pos hx
    split <;> exact hpos
  -- the symbol is on the list with its new type, the others as they were
  · intro i z hz hdeclares u hu
    obtain ⟨x, hx, rfl⟩ := hback hz
    split at hu
    · next heq => exact ⟨name, args, (some.inj hu).symm, heq ▸ mem_cons_self⟩
    next hne =>
      rw [if_neg hne] at hdeclares
      obtain ⟨name', args', hu', hmem⟩ := h.typed hx hdeclares u hu
      exact ⟨name', args', hu', mem_cons_of_mem _ hmem⟩
  · intro e he
    rcases mem_cons.mp he with rfl | he
    · exact hname.mono hgrows.keepsNames
    · obtain ⟨x, hx⟩ := h.nominal e he
      exact hx.mono hgrows.keepsNames

end

end

end Store

/-- The symbol that was owed its type has got it. It is new, so nothing that was there has been
changed. -/
theorem Table.Settles.paid {t t' : Table} (h : t.Settles (some id) t') (hid : t.symbols.size ≤ id)
    (type : Ty) : t.Settles none (t'.updateSymbol id fun y => { y with type := some type }) where
  kept i y y' hy hy' hk := by
    have hi := lt_of_get? hy
    rw [getElem?_updateSymbol] at hy'
    obtain ⟨x, hx, rfl⟩ := map_eq_some_iff.mp hy'
    rw [if_neg (by omega)]
    exact h.kept i y x hy hx hk
  typed i y hy hdeclares hnone := by
    rw [getElem?_updateSymbol] at hy
    obtain ⟨x, hx, rfl⟩ := map_eq_some_iff.mp hy
    split at hnone
    · cases hnone
    next hne =>
      rw [if_neg hne] at hdeclares
      exact .inl ((h.typed i x hx hdeclares hnone).resolve_right fun heq => hne (some.inj heq))

end UnitCheck
