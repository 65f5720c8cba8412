import Mathlib.Data.List.Nodup
import Mathlib.Data.Nat.Basic
import Mathlib.Order.Basic
import UnitCheck.Proofs.Scoping.Growth

/-!
# Tables stay consistent

What a table promises whatever calls are made on it, with whatever arguments.

* `Table.Consistent` — symbols, the names of scopes and the tree of scopes agree with each other.
* `Table.Call` — the operations on tables as data; `Consistent.run` is the step lemma, one case for
  each operation, and `consistent_after` the run lemma.
* `Table.Walk` — a walk along the parents from a scope to the root. `Consistent.walk` says that
  `Table.enclosing`, through which names are looked up, is always such a walk.
-/

namespace UnitCheck

open Relation List Option

variable {t : Table} {i c id p : Nat} {f : Symbol → Symbol}

/-- A change to a scope that leaves its place in the tree, its children and its names. -/
structure Scope.Keeps (f : Scope → Scope) : Prop where
  id_eq : ∀ s, (f s).id = s.id
  parent_eq : ∀ s, (f s).parent = s.parent
  kind_eq : ∀ s, (f s).kind = s.kind
  depth_eq : ∀ s, (f s).depth = s.depth
  children_eq : ∀ s, (f s).children = s.children
  names_eq : ∀ s, (f s).names = s.names

/-- A change to a symbol that leaves its name and the scope it belongs to. -/
structure Symbol.Keeps (f : Symbol → Symbol) : Prop where
  id_eq : ∀ y, (f y).id = y.id
  name_eq : ∀ y, (f y).name = y.name
  scope_eq : ∀ y, (f y).scope = y.scope

theorem Scope.Keeps.of_same {f : Scope → Scope}
    (h : ∀ s, ((f s).id, (f s).parent, (f s).kind, (f s).depth, (f s).children, (f s).names) =
      (s.id, s.parent, s.kind, s.depth, s.children, s.names)) : Scope.Keeps f := by
  simp only [Prod.mk.injEq, forall_and] at h
  obtain ⟨hid, hparent, hkind, hdepth, hchildren, hnames⟩ := h
  exact ⟨hid, hparent, hkind, hdepth, hchildren, hnames⟩

theorem Symbol.Keeps.of_same
    (h : ∀ y, ((f y).id, (f y).name, (f y).scope) = (y.id, y.name, y.scope)) : Symbol.Keeps f := by
  simp only [Prod.mk.injEq, forall_and] at h
  exact ⟨h.1, h.2.1, h.2.2⟩

theorem Scope.Keeps.ite {f : Scope → Scope} (hf : Scope.Keeps f) (p : Prop) [Decidable p] :
    Scope.Keeps fun s => if p then f s else s := by
  constructor <;> intro s <;> split <;>
    simp [hf.id_eq, hf.parent_eq, hf.kind_eq, hf.depth_eq, hf.children_eq, hf.names_eq]

theorem Symbol.Keeps.ite (hf : Symbol.Keeps f) (p : Prop) [Decidable p] :
    Symbol.Keeps fun y => if p then f y else y := by
  constructor <;> intro y <;> split <;> simp [hf.id_eq, hf.name_eq, hf.scope_eq]

theorem Scope.Keeps.rewrites {f : Scope → Scope} (hf : Scope.Keeps f) : Table.Rewrites f :=
  ⟨hf.parent_eq, hf.kind_eq⟩

theorem Symbol.Amends.keeps (hf : Symbol.Amends f) : Symbol.Keeps f :=
  ⟨hf.id_eq, hf.name_eq, hf.scope_eq⟩

namespace Table

variable {name : String} {s s' : Scope} {names : List (String × Nat)} {kind : ScopeKind}

/-! ## Consistency -/

/-- A symbol's id is its place, and its name leads to it in the scope it records; each name of a
scope leads to such a symbol. A scope's id is its place too; the global scope is the only one
without a parent, and the children of a scope are the scopes that it is the parent of. -/
structure Consistent (t : Table) : Prop where
  current_lt : t.current < t.scopes.size
  symbol_id : ∀ {i : Nat} {y : Symbol}, t.symbols[i]? = some y → y.id = i
  symbol_named : ∀ {i : Nat} {y : Symbol}, t.symbols[i]? = some y →
    t.lookupIn y.scope y.name = some i
  name_symbol : ∀ {j : Nat} {s : Scope}, t.scopes[j]? = some s → ∀ e ∈ s.names,
    ∃ y, t.symbols[e.2]? = some y ∧ y.name = e.1 ∧ y.scope = j
  names_nodup : ∀ {j : Nat} {s : Scope}, t.scopes[j]? = some s → (s.names.map (·.1)).Nodup
  scope_id : ∀ {i : Nat} {s : Scope}, t.scopes[i]? = some s → s.id = i
  root : ∀ {i : Nat} {s : Scope}, t.scopes[i]? = some s → (s.parent = none ↔ i = 0)
  parent_below : ∀ {i p : Nat} {s : Scope}, t.scopes[i]? = some s → s.parent = some p →
    p < i ∧ ∃ r, t.scopes[p]? = some r ∧ s.depth = r.depth + 1
  root_depth : ∀ {s : Scope}, t.scopes[0]? = some s → s.depth = 0
  children_nodup : ∀ {p : Nat} {r : Scope}, t.scopes[p]? = some r → r.children.Nodup
  mem_children : ∀ {p : Nat} {r : Scope}, t.scopes[p]? = some r → ∀ i, i ∈ r.children ↔ t.Parent i p

/-- A new table has the global scope only. -/
theorem scope_of_empty (hs : ({} : Table).scopes[i]? = some s) :
    i = 0 ∧ s = { id := 0, kind := .global, parent := none, depth := 0 } := by
  obtain ⟨hi, rfl⟩ := Array.getElem?_eq_some_iff.mp hs
  have hi : i < 1 := hi
  obtain rfl : i = 0 := by omega
  exact ⟨rfl, rfl⟩

theorem consistent_empty : Consistent {} := by
  have hparent : ∀ i p, ¬ ({} : Table).Parent i p := by
    rintro i p ⟨s, hs, hp⟩
    obtain ⟨-, rfl⟩ := scope_of_empty hs
    cases hp
  constructor
  case current_lt => simp
  case symbol_id | symbol_named => simp
  case mem_children =>
    intro p r hr i
    obtain ⟨-, rfl⟩ := scope_of_empty hr
    simp [hparent i p]
  case parent_below =>
    intro i p s hs hp
    exact absurd ⟨s, hs, hp⟩ (hparent i p)
  case root_depth =>
    intro s hs
    obtain ⟨-, rfl⟩ := scope_of_empty hs
    rfl
  all_goals
    intro i s hs
    obtain ⟨rfl, rfl⟩ := scope_of_empty hs
    simp

theorem Consistent.parent_lt (h : t.Consistent) (hp : t.Parent i p) : p < i := by
  obtain ⟨s, hs, hp⟩ := hp
  exact (h.parent_below hs hp).1

theorem Consistent.inside_le (h : t.Consistent) {e : Nat} (hi : t.Inside i e) : e ≤ i := by
  induction hi with
  | refl => exact le_rfl
  | tail _ hstep ih => exact (h.parent_lt hstep).le.trans ih

theorem mem_of_lookup_name (h : names.lookup name = some id) : (name, id) ∈ names := by
  obtain ⟨before, behind, rfl, -⟩ := lookup_eq_some_iff.mp h
  simp

/-! ## Changes that leave names and tree -/

section

variable {t' : Table} {f : Nat → Scope → Scope} {g : Nat → Symbol → Symbol}

theorem parent_of_keeps (hf : ∀ i, Scope.Keeps (f i))
    (hscopes : ∀ i, t'.scopes[i]? = (t.scopes[i]?).map (f i)) (i p : Nat) : t'.Parent i p ↔
      t.Parent i p := by
  unfold Parent
  rw [hscopes]
  cases t.scopes[i]? with
  | none => simp
  | some s => simp [(hf i).parent_eq]

theorem lookupIn_of_keeps (hf : ∀ i, Scope.Keeps (f i))
    (hscopes : ∀ i, t'.scopes[i]? = (t.scopes[i]?).map (f i)) (j : Nat) (name : String) :
    t'.lookupIn j name = t.lookupIn j name := by
  rw [lookupIn, lookupIn, scope?_natCast, scope?_natCast, hscopes]
  cases t.scopes[j]? with
  | none => rfl
  | some s => simp [(hf j).names_eq]

/-- Scopes and symbols are changed one by one. -/
theorem Consistent.of_keeps (h : t.Consistent) (hf : ∀ i, Scope.Keeps (f i))
    (hg : ∀ i, Symbol.Keeps (g i)) (hscopes : ∀ i, t'.scopes[i]? = (t.scopes[i]?).map (f i))
    (hsymbols : ∀ i, t'.symbols[i]? = (t.symbols[i]?).map (g i))
    (hcurrent : t'.current < t.scopes.size) : t'.Consistent := by
  have hscope : ∀ {i : Nat} {s' : Scope}, t'.scopes[i]? = some s' →
      ∃ s, t.scopes[i]? = some s ∧ f i s = s' := by
    intro i s' hs'
    rw [hscopes] at hs'
    exact map_eq_some_iff.mp hs'
  have hsymbol : ∀ {i : Nat} {y' : Symbol}, t'.symbols[i]? = some y' →
      ∃ y, t.symbols[i]? = some y ∧ g i y = y' := by
    intro i y' hy'
    rw [hsymbols] at hy'
    exact map_eq_some_iff.mp hy'
  -- each clause is read back through `hscope` and `hsymbol`, since nothing it speaks of has changed
  constructor
  case current_lt =>
    refine Nat.lt_of_not_le fun hle => ?_
    have hnone : t'.scopes[t'.current]? = none := Array.getElem?_eq_none hle
    rw [hscopes, Array.getElem?_eq_getElem hcurrent] at hnone
    cases hnone
  case symbol_id =>
    intro i y' hy'
    obtain ⟨y, hy, rfl⟩ := hsymbol hy'
    rw [(hg i).id_eq, h.symbol_id hy]
  case symbol_named =>
    intro i y' hy'
    obtain ⟨y, hy, rfl⟩ := hsymbol hy'
    rw [(hg i).scope_eq, (hg i).name_eq, lookupIn_of_keeps hf hscopes, h.symbol_named hy]
  case name_symbol =>
    intro j s' hs' e he
    obtain ⟨s, hs, rfl⟩ := hscope hs'
    rw [(hf j).names_eq] at he
    obtain ⟨y, hy, hname, hhome⟩ := h.name_symbol hs e he
    refine ⟨g e.2 y, by rw [hsymbols, hy]; rfl, ?_, ?_⟩
    · rw [(hg e.2).name_eq, hname]
    · rw [(hg e.2).scope_eq, hhome]
  case names_nodup =>
    intro j s' hs'
    obtain ⟨s, hs, rfl⟩ := hscope hs'
    rw [(hf j).names_eq]
    exact h.names_nodup hs
  case scope_id =>
    intro i s' hs'
    obtain ⟨s, hs, rfl⟩ := hscope hs'
    rw [(hf i).id_eq, h.scope_id hs]
  case root =>
    intro i s' hs'
    obtain ⟨s, hs, rfl⟩ := hscope hs'
    rw [(hf i).parent_eq, h.root hs]
  case parent_below =>
    intro i p s' hs' hp
    obtain ⟨s, hs, rfl⟩ := hscope hs'
    rw [(hf i).parent_eq] at hp
    obtain ⟨hlt, r, hr, hdepth⟩ := h.parent_below hs hp
    refine ⟨hlt, f p r, by rw [hscopes, hr]; rfl, ?_⟩
    rw [(hf i).depth_eq, (hf p).depth_eq, hdepth]
  case root_depth =>
    intro s' hs'
    obtain ⟨s, hs, rfl⟩ := hscope hs'
    rw [(hf 0).depth_eq, h.root_depth hs]
  case children_nodup =>
    intro p r' hr'
    obtain ⟨r, hr, rfl⟩ := hscope hr'
    rw [(hf p).children_eq]
    exact h.children_nodup hr
  case mem_children =>
    intro p r' hr' i
    obtain ⟨r, hr, rfl⟩ := hscope hr'
    rw [(hf p).children_eq, parent_of_keeps hf hscopes]
    exact h.mem_children hr i

end

theorem keeps_id : Scope.Keeps fun s => s := .of_same fun _ => rfl

theorem Consistent.updateSymbol (h : t.Consistent) (id : Nat) {g : Symbol → Symbol}
    (hg : Symbol.Keeps g) :
    (t.updateSymbol id g).Consistent :=
  h.of_keeps (fun _ => keeps_id) (fun i => hg.ite (id = i)) (fun _ => by simp [Table.updateSymbol])
    (getElem?_updateSymbol t id g) h.current_lt

theorem Consistent.updateScope (h : t.Consistent) (id : Nat) {f : Scope → Scope}
    (hf : Scope.Keeps f) :
    (t.updateScope id f).Consistent :=
  h.of_keeps (fun i => hf.ite (id = i)) (fun _ => .of_same fun _ => rfl)
    (getElem?_updateScope t id f)
    (g := fun _ y => y) (fun _ => by simp [Table.updateScope]) h.current_lt

theorem Consistent.goto (h : t.Consistent) (hid : id < t.scopes.size) :
    { t with current := id }.Consistent :=
  h.of_keeps (g := fun _ y => y) (fun _ => keeps_id) (fun _ => .of_same fun _ => rfl)
    (fun _ => by simp)
    (fun _ => by simp) hid

theorem Consistent.takeImports (h : t.Consistent) : (Table.takeImports.run t).2.Consistent :=
  h.of_keeps (f := fun _ s => { s with imports := [] }) (g := fun _ y => y)
    (fun _ => .of_same fun _ => rfl) (fun _ => .of_same fun _ => rfl)
    (getElem?_takeImports t) (fun _ => (Option.map_id' ..).symm) h.current_lt

/-! ## New scopes and symbols -/

theorem parent_entered (t : Table) (kind : ScopeKind) (i p : Nat) :
    (t.entered kind).Parent i p ↔ t.Parent i p ∨ (i = t.scopes.size ∧ p = t.current) := by
  unfold Parent
  rw [getElem?_entered]
  by_cases hi : i = t.scopes.size
  · subst hi
    rw [if_pos rfl, Array.getElem?_eq_none le_rfl]
    simp [newScope, eq_comm]
  · rw [if_neg hi, withChild, getElem?_updateScope]
    cases t.scopes[i]? with
    | none => simp [hi]
    | some s => simp [hi]; split <;> rfl

theorem entered_cases (hs' : (t.entered kind).scopes[i]? = some s') :
    (i = t.scopes.size ∧ s' = t.newScope kind) ∨
      ∃ s, t.scopes[i]? = some s ∧ i < t.scopes.size ∧ s' = { s with
        children := if t.current = i then s.children ++ [t.scopes.size] else s.children } := by
  rw [getElem?_entered] at hs'
  split at hs'
  · next hi => exact .inl ⟨hi, (some.inj hs').symm⟩
  · rw [withChild, getElem?_updateScope] at hs'
    obtain ⟨s, hs, rfl⟩ := map_eq_some_iff.mp hs'
    refine .inr ⟨s, hs, lt_of_get? hs, ?_⟩
    split <;> rfl

theorem entered_old (hs : t.scopes[i]? = some s) :
    (t.entered kind).scopes[i]? = some { s with
      children := if t.current = i then s.children ++ [t.scopes.size] else s.children } := by
  have hi := lt_of_get? hs
  rw [getElem?_entered, if_neg (by omega), withChild, getElem?_updateScope, hs]
  simp only [map_some]
  split <;> rfl

theorem Consistent.not_parent_size (h : t.Consistent) (hp : t.Parent i p) :
    i < t.scopes.size ∧ p < t.scopes.size := by
  obtain ⟨s, hs, hp⟩ := hp
  have hi := lt_of_get? hs
  exact ⟨hi, (h.parent_below hs hp).1.trans hi⟩

/-- A new scope below the current one, which gets it as a child. -/
theorem Consistent.entered (h : t.Consistent) (kind : ScopeKind) : (t.entered kind).Consistent := by
  have hcurrent := Array.getElem?_eq_getElem h.current_lt
  have hzero : 0 < t.scopes.size := Nat.zero_lt_of_lt h.current_lt
  have hlookup : ∀ {j : Nat} {name : String} {id : Nat}, t.lookupIn j name = some id →
      (t.entered kind).lookupIn j name = some id := by
    intro j name id hl
    cases hs : t.scopes[j]? with
    | none =>
      rw [lookupIn, scope?_natCast, hs] at hl
      cases hl
    | some s =>
      rw [lookupIn_of_get? hs] at hl
      rw [lookupIn_of_get? (entered_old hs), hl]
  -- `entered_cases`: a scope of the new table is the new one or one that was there
  constructor
  case current_lt =>
    exact lt_of_get? (entered_scope t kind)
  case symbol_id => exact h.symbol_id
  case symbol_named => exact fun hy => hlookup (h.symbol_named hy)
  case name_symbol =>
    intro j s' hs' e he
    rcases entered_cases hs' with ⟨-, rfl⟩ | ⟨s, hs, -, rfl⟩
    · cases he
    · exact h.name_symbol hs e he
  case names_nodup =>
    intro j s' hs'
    rcases entered_cases hs' with ⟨-, rfl⟩ | ⟨s, hs, -, rfl⟩
    · exact nodup_nil
    · exact (h.names_nodup hs :)
  case scope_id =>
    intro i s' hs'
    rcases entered_cases hs' with ⟨rfl, rfl⟩ | ⟨s, hs, -, rfl⟩
    · rfl
    · exact (h.scope_id hs :)
  case root =>
    intro i s' hs'
    rcases entered_cases hs' with ⟨rfl, rfl⟩ | ⟨s, hs, -, rfl⟩
    · exact ⟨fun hp => absurd hp (by simp [newScope]), fun hi => absurd hi (by omega)⟩
    · exact (h.root hs :)
  case parent_below =>
    intro i p s' hs' hp
    rcases entered_cases hs' with ⟨rfl, rfl⟩ | ⟨s, hs, -, rfl⟩
    · obtain rfl : t.current = p := some.inj hp
      refine ⟨h.current_lt, _, entered_old hcurrent, ?_⟩
      show (t.scope t.current).depth + 1 = _
      rw [scope_of_get? hcurrent]
    · obtain ⟨hlt, r, hr, hdepth⟩ := h.parent_below hs hp
      exact ⟨hlt, _, entered_old hr, hdepth⟩
  case root_depth =>
    intro s' hs'
    rcases entered_cases hs' with ⟨hi, -⟩ | ⟨s, hs, -, rfl⟩
    · omega
    · exact (h.root_depth hs :)
  case children_nodup =>
    intro p r' hr'
    rcases entered_cases hr' with ⟨-, rfl⟩ | ⟨r, hr, -, rfl⟩
    · exact nodup_nil
    · -- the new scope is not among the children, all of which are there already
      have hnew : t.scopes.size ∉ r.children := fun hmem =>
        absurd (h.not_parent_size ((h.mem_children hr _).mp hmem)).1 (Nat.lt_irrefl _)
      split
      · exact (h.children_nodup hr).append (nodup_singleton _) (by simpa using hnew)
      · exact (h.children_nodup hr :)
  case mem_children =>
    intro p r' hr' i
    rw [parent_entered]
    rcases entered_cases hr' with ⟨rfl, rfl⟩ | ⟨r, hr, hlt, rfl⟩
    · constructor
      · intro hmem
        cases hmem
      · rintro (hp | ⟨-, hp⟩)
        · exact absurd (h.not_parent_size hp).2 (Nat.lt_irrefl _)
        · exact absurd h.current_lt (by omega)
    · dsimp only
      split
      · next hp => simp [h.mem_children hr, hp]
      · next hp => simp [h.mem_children hr, Ne.symm hp]

theorem not_mem_of_lookup_eq_none (h : names.lookup name = none) : name ∉ names.map (·.1) := by
  intro hmem
  obtain ⟨e, he, rfl⟩ := List.mem_map.mp hmem
  have hsome : (names.lookup e.1).isSome = true :=
    lookup_isSome_iff.mpr ⟨e, he, beq_self_eq_true e.1⟩
  rw [h] at hsome
  cases hsome

theorem withSymbol_cases {kind : SymbolKind} {pos : Position}
    (hs' : (t.withSymbol c name kind pos).scopes[i]? = some s') : ∃ s, t.scopes[i]? = some s ∧
      s' = { s with names := if c = i then s.names ++ [(name, t.symbols.size)] else s.names } := by
  have hupdate : (t.updateScope c fun s =>
      { s with names := s.names ++ [(name, t.symbols.size)] }).scopes[i]? = some s' := hs'
  rw [getElem?_updateScope] at hupdate
  obtain ⟨s, hs, rfl⟩ := map_eq_some_iff.mp hupdate
  refine ⟨s, hs, ?_⟩
  split <;> rfl

theorem parent_withSymbol (c : Nat) (name : String) (kind : SymbolKind)
    (pos : Position) (i p : Nat) :
    (t.withSymbol c name kind pos).Parent i p ↔ t.Parent i p := by
  constructor
  · rintro ⟨s', hs', hp⟩
    obtain ⟨s, hs, rfl⟩ := withSymbol_cases hs'
    exact ⟨s, hs, hp⟩
  · exact (grows_withSymbol t c name kind pos).parent

/-- The symbols that were there stay where they are. -/
theorem withSymbol_symbol_old {y : Symbol} (kind : SymbolKind) (pos : Position)
    (hy : t.symbols[i]? = some y) :
    (t.withSymbol c name kind pos).symbols[i]? = some y := by
  have hi := lt_of_get? hy
  rw [getElem?_withSymbol, if_neg (by omega), hy]

namespace Consistent

/-! The clauses of consistency for a table with one more symbol, under a name that was free. -/

section

variable (h : t.Consistent) (kind : SymbolKind) (pos : Position)
include h

/-- Every symbol is still found under its name: the new one, and those that were there. -/
theorem withSymbol_symbol_named (hs : t.scopes[c]? = some s)
    (hfree : s.names.lookup name = none) {y : Symbol}
    (hy : (t.withSymbol c name kind pos).symbols[i]? = some y) :
    (t.withSymbol c name kind pos).lookupIn y.scope y.name = some i := by
  rw [getElem?_withSymbol] at hy
  split at hy
  next hi =>
    obtain rfl := some.inj hy
    rw [lookupIn_of_get? (withSymbol_scope t c name kind pos hs), if_pos rfl, lookup_append, hfree]
    simp [hi]
  · have hnamed := h.symbol_named hy
    cases hs : t.scopes[y.scope]? with
    | none =>
      rw [lookupIn, scope?_natCast, hs] at hnamed
      cases hnamed
    | some s =>
      -- names are added behind those that are there, so the first entry stays the first
      rw [lookupIn_of_get? hs] at hnamed
      rw [lookupIn_of_get? (withSymbol_scope t c name kind pos hs)]
      split
      · rw [lookup_append, hnamed]
        rfl
      · exact hnamed

/-- Every name still leads to a symbol of its scope. -/
theorem withSymbol_name_symbol {j : Nat} (hs' : (t.withSymbol c name kind pos).scopes[j]? = some s')
    {e : String × Nat} (he : e ∈ s'.names) :
    ∃ y, (t.withSymbol c name kind pos).symbols[e.2]? = some y ∧ y.name = e.1 ∧ y.scope = j := by
  obtain ⟨s, hs, rfl⟩ := withSymbol_cases hs'
  have hold : e ∈ s.names → ∃ y, (t.withSymbol c name kind pos).symbols[e.2]? = some y ∧
      y.name = e.1 ∧ y.scope = j := by
    intro hmem
    obtain ⟨y, hy, hy'⟩ := h.name_symbol hs e hmem
    exact ⟨y, withSymbol_symbol_old kind pos hy, hy'⟩
  split at he
  next hj =>
    rcases mem_append.mp he with he | he
    · exact hold he
    · rw [mem_singleton.mp he]
      exact ⟨_, withSymbol_symbol t c name kind pos, rfl, hj⟩
  · exact hold he

theorem withSymbol_names_nodup (hs : t.scopes[c]? = some s)
    (hfree : s.names.lookup name = none) {j : Nat}
    (hs' : (t.withSymbol c name kind pos).scopes[j]? = some s') : (s'.names.map (·.1)).Nodup := by
  obtain ⟨s₀, hs₀, rfl⟩ := withSymbol_cases hs'
  split
  next hj =>
    subst hj
    obtain rfl := mem_unique hs hs₀
    rw [map_append, map_singleton]
    have hnew := not_mem_of_lookup_eq_none hfree
    exact (h.names_nodup hs).append (nodup_singleton _) (disjoint_singleton.mpr hnew)
  · exact (h.names_nodup hs₀ :)

theorem withSymbol_parent_below (hs' : (t.withSymbol c name kind pos).scopes[i]? = some s')
    (hp : s'.parent = some p) :
    p < i ∧ ∃ r, (t.withSymbol c name kind pos).scopes[p]? = some r ∧ s'.depth = r.depth + 1 := by
  obtain ⟨s, hs, rfl⟩ := withSymbol_cases hs'
  obtain ⟨hlt, r, hr, hdepth⟩ := h.parent_below hs hp
  refine ⟨hlt, _, withSymbol_scope t c name kind pos hr, ?_⟩
  show s.depth = _
  split <;> exact hdepth

end

/-- A symbol under a name that was free in its scope. The tree of scopes is as before. -/
theorem withSymbol (h : t.Consistent) (hc : c < t.scopes.size) (hfree : t.lookupIn c name = none)
    (kind : SymbolKind) (pos : Position) : (t.withSymbol c name kind pos).Consistent := by
  have hhome := Array.getElem?_eq_getElem hc
  rw [lookupIn_of_get? hhome] at hfree
  constructor
  case current_lt => exact h.current_lt.trans_le (grows_withSymbol t c name kind pos).scopes_le
  case symbol_id =>
    intro i y hy
    rw [getElem?_withSymbol] at hy
    split at hy
    next hi =>
      obtain rfl := some.inj hy
      exact hi.symm
    · exact h.symbol_id hy
  case symbol_named => exact h.withSymbol_symbol_named kind pos hhome hfree
  case name_symbol => exact fun hs' _ he => h.withSymbol_name_symbol kind pos hs' he
  case names_nodup => exact h.withSymbol_names_nodup kind pos hhome hfree
  case parent_below => exact h.withSymbol_parent_below kind pos
  case mem_children =>
    intro p r' hr' i
    obtain ⟨r, hr, rfl⟩ := withSymbol_cases hr'
    rw [parent_withSymbol]
    exact h.mem_children hr i
  case root_depth =>
    intro s' hs'
    obtain ⟨s, hs, rfl⟩ := withSymbol_cases hs'
    exact (h.root_depth hs :)
  -- the other clauses look at one scope and not at its names
  all_goals
    intro i s' hs'
    obtain ⟨s, hs, rfl⟩ := withSymbol_cases hs'
  case scope_id => exact (h.scope_id hs :)
  case root => exact (h.root hs :)
  case children_nodup => exact (h.children_nodup hs :)

end Consistent

/-! ## Calls -/

/-- What a call can complain about. -/
inductive Fault where
  | scope (f : ScopeFault)
  | declaration (f : DeclareFault)

/-- A call to one of the operations on tables. -/
inductive Call where
  | enter (kind : ScopeKind)
  | reenter (id : Int)
  | exit
  | declare (name : String) (kind : SymbolKind) (pos : Position)
  | declareTyped (name : String) (kind : SymbolKind) (pos : Position) (type : Option Ty)
    (mutable : Bool)
  | declareIn (scope : Int) (name : String) (kind : SymbolKind) (pos : Position)
  | declareAlias (scope : Int) (name : String) (target : Int) (pos : Position)
  | addImport (i : Import)
  | takeImports

namespace Call

/-- Runs an operation for its effect and its fault. -/
def effect {ε α : Type} (fault : ε → Fault) (m : TableM (Except ε α)) :
    TableM (Except Fault Unit) := do
  return ((← m).mapError fault).map fun _ => ()

def perform : Call → TableM (Except Fault Unit)
  | enter kind => do
    let _ ← Table.enter kind
    return .ok ()
  | reenter id => effect .scope (Table.reenter id)
  | exit => effect .scope Table.exit
  | declare name kind pos => effect .declaration (Table.declare name kind pos)
  | declareTyped name kind pos type mutable =>
    effect .declaration (Table.declareTyped name kind pos type mutable)
  | declareIn scope name kind pos => effect .declaration (Table.declareIn scope name kind pos)
  | declareAlias scope name target pos =>
    effect .declaration (Table.declareAlias scope name target pos)
  | addImport i => do
    Table.addImport i
    return .ok ()
  | takeImports => do
    let _ ← Table.takeImports
    return .ok ()

end Call

/-- The table that calls lead to, the first of them on an empty table. -/
def after (calls : List Call) : Table := calls.foldl (fun t c => (c.perform.run t).2) {}

/-- The scope that a call may declare a name in. -/
def Call.target (t : Table) : Call → Option Int
  | declare .. | declareTyped .. => some t.current
  | declareIn scope .. | declareAlias scope .. => some scope
  | _ => none

/-- A run on a table that leaves it consistent, and as it was in case of a fault. Scopes keep their
parents, and those other than the target keep their names. -/
structure Safe {ε α : Type} (t : Table) (target : Option Int) (r : Except ε α × Table) : Prop where
  consistent : r.2.Consistent
  unchanged : ∀ f, r.1 = .error f → r.2 = t
  kept : ∀ (i : Nat) (s : Scope), t.scopes[i]? = some s → ∃ s', r.2.scopes[i]? = some s' ∧
    s'.parent = s.parent ∧ (target ≠ some (i : Int) → s'.names = s.names)
  current : target ≠ none → r.2.current = t.current

section

variable (h : t.Consistent)
include h

theorem Consistent.scope?_eq {id : Int} (hs : t.scope? id = some s) :
    id = s.id ∧ t.scopes[s.id]? = some s := by
  unfold scope? at hs
  split at hs
  · cases hs
  · rw [h.scope_id hs]
    exact ⟨by omega, hs⟩

/-- Nothing is done. -/
theorem Consistent.safe {ε α : Type} (target : Option Int) (x : Except ε α) :
    t.Safe target (x, t) :=
  ⟨h, fun _ _ => rfl, fun _ s hs => ⟨s, hs, rfl, fun _ => rfl⟩, fun _ => rfl⟩

theorem Consistent.goto_safe (hid : id < t.scopes.size) {ε α : Type} (a : α) :
    t.Safe none ((.ok a : Except ε α), { t with current := id }) :=
  ⟨h.goto hid, fun _ hf => (by cases hf), fun _ s hs => ⟨s, hs, rfl, fun _ => rfl⟩,
    fun hne => absurd rfl hne⟩

theorem Consistent.reenter_safe (id : Int) : t.Safe none ((reenter id).run t) := by
  rw [reenter_eq]
  split
  · exact h.safe none _
  next s hs =>
    split
    · exact h.goto_safe (lt_of_get? (h.scope?_eq hs).2) ()
    · exact h.safe none _

theorem Consistent.exit_safe : t.Safe none (exit.run t) := by
  have hcurrent := Array.getElem?_eq_getElem h.current_lt
  rw [exit_eq, scope_of_get? hcurrent]
  split
  · exact h.safe none _
  next p hp => exact h.goto_safe ((h.parent_below hcurrent hp).1.trans h.current_lt) t.current

/-- A declaration adds a symbol to a scope of the table, or changes nothing. -/
theorem Consistent.declareIn_cases (scope : Int) (name : String) (kind : SymbolKind)
    (pos : Position) :
    (∃ f, (declareIn scope name kind pos).run t = (.error f, t)) ∨
      ∃ c : Nat, scope = c ∧ (t.withSymbol c name kind pos).Consistent ∧
        (declareIn scope name kind pos).run t =
          (.ok t.symbols.size, t.withSymbol c name kind pos) := by
  rw [declareIn_eq]
  split
  · exact .inl ⟨_, rfl⟩
  next s hs =>
    obtain ⟨hid, hhome⟩ := h.scope?_eq hs
    have hlt := lt_of_get? hhome
    cases hl : s.names.lookup name with
    | some previous => exact .inl ⟨_, rfl⟩
    | none =>
      have hfree : t.lookupIn s.id name = none := by rw [lookupIn_of_get? hhome, hl]
      exact .inr ⟨s.id, hid, h.withSymbol hlt hfree kind pos, rfl⟩

omit h in
theorem kept_updateScope {f : Scope → Scope} {target : Option Int}
    (hp : ∀ s, (f s).parent = s.parent)
    (hn : target ≠ some (c : Int) → ∀ s, (f s).names = s.names) (i : Nat) (s : Scope)
    (hs : t.scopes[i]? = some s) :
    ∃ s', (t.updateScope c f).scopes[i]? = some s' ∧
      s'.parent = s.parent ∧ (target ≠ some (i : Int) → s'.names = s.names) := by
  refine ⟨if c = i then f s else s, by rw [getElem?_updateScope, hs]; rfl, ?_⟩
  split
  next hi => exact ⟨hp s, fun hne => hn (hi ▸ hne) s⟩
  · exact ⟨rfl, fun _ => rfl⟩

omit h in
/-- A name has been declared in the scope `c`, and its symbol was filled in. -/
theorem Consistent.withSymbol_safe {t' : Table} (h : t'.Consistent) (hscopes : t'.scopes =
      (t.updateScope c fun s => { s with names := s.names ++ [(name, t.symbols.size)] }).scopes)
    (hcurrent : t'.current = t.current) {ε α : Type} (a : α) :
      t.Safe (some c) ((.ok a : Except ε α), t') := by
  refine ⟨h, fun _ hf => (by cases hf), ?_, fun _ => hcurrent⟩
  rw [hscopes]
  exact kept_updateScope (fun _ => rfl) fun hne => absurd rfl hne

theorem Consistent.declareIn_safe (scope : Int) (name : String)
    (kind : SymbolKind) (pos : Position) :
    t.Safe (some scope) ((declareIn scope name kind pos).run t) := by
  rcases h.declareIn_cases scope name kind pos with ⟨f, hrun⟩ | ⟨c, rfl, hc, hrun⟩
  · rw [hrun]
    exact h.safe _ _
  · rw [hrun]
    exact hc.withSymbol_safe rfl rfl _

theorem Consistent.declareTyped_safe (name : String) (kind : SymbolKind)
    (pos : Position) (type : Option Ty) (mutable : Bool) :
    t.Safe (some t.current) ((declareTyped name kind pos type mutable).run t) := by
  unfold declareTyped declare
  simp only [StateT.run_bind, StateT.run_get, pure_bind]
  rcases h.declareIn_cases t.current name kind pos with ⟨f, hrun⟩ | ⟨c, hscope, hc, hrun⟩
  · rw [hrun]
    exact h.safe _ _
  · rw [hrun, hscope]
    exact (hc.updateSymbol _ (g :=
      fun y => { y with type, mutable }) (.of_same fun _ => rfl)).withSymbol_safe
      rfl rfl _

/-- A name for another symbol, which may or may not be there. -/
theorem Consistent.declareAlias_safe (scope : Int) (name : String) (target : Int)
    (pos : Position) : t.Safe (some scope) ((declareAlias scope name target pos).run t) := by
  unfold declareAlias
  simp only [StateT.run_bind, StateT.run_get, pure_bind]
  cases t.symbol? target with
  | none => exact h.safe _ _
  | some tgt =>
    rw [StateT.run_bind]
    rcases h.declareIn_cases scope name tgt.kind pos with ⟨f, hrun⟩ | ⟨c, rfl, hc, hrun⟩
    · rw [hrun]
      exact h.safe _ _
    · rw [hrun]
      have hcopied := hc.updateSymbol t.symbols.size (g := fun y =>
        { y with
          type := tgt.type, members := tgt.members, generics := tgt.generics
          mutable := tgt.mutable, initialized := tgt.initialized, shape := tgt.shape
          aliasOf := some tgt.id }) (.of_same fun _ => rfl)
      exact (hcopied.updateSymbol tgt.id (g := fun y => { y with used := true })
        (.of_same fun _ => rfl)).withSymbol_safe rfl rfl _

omit h in
theorem Safe.effect {ε α : Type} {fault : ε → Fault} {m : TableM (Except ε α)} {target : Option Int}
    (h : t.Safe target (m.run t)) : t.Safe target ((Call.effect fault m).run t) := by
  unfold Call.effect
  rw [StateT.run_bind]
  refine ⟨h.consistent, fun f hr => ?_, h.kept, h.current⟩
  cases hm : (m.run t).1 with
  | error e => exact h.unchanged e hm
  | ok a =>
    have hr' : ((m.run t).1.mapError fault).map (fun _ => ()) = .error f := hr
    rw [hm] at hr'
    cases hr'

/-- The step lemma: whatever is called, with whatever arguments. -/
theorem Consistent.perform_safe (c : Call) : t.Safe (c.target t) (c.perform.run t) := by
  cases c with
  | enter kind =>
    exact ⟨h.entered kind, fun f hf => (by cases hf),
      fun i s hs => ⟨_, entered_old hs, rfl, fun _ => rfl⟩, fun hne => absurd rfl hne⟩
  | reenter id => exact (h.reenter_safe id).effect
  | exit => exact h.exit_safe.effect
  | declare name kind pos => exact (h.declareIn_safe t.current name kind pos).effect
  | declareTyped name kind pos type mutable =>
    exact (h.declareTyped_safe name kind pos type mutable).effect
  | declareIn scope name kind pos => exact (h.declareIn_safe scope name kind pos).effect
  | declareAlias scope name target pos => exact (h.declareAlias_safe scope name target pos).effect
  | addImport i =>
    exact ⟨h.updateScope t.current (f := fun s => { s with imports := s.imports ++ [i] })
      (.of_same fun _ => rfl),
      fun f hf => (by cases hf), kept_updateScope (fun _ => rfl) fun _ _ => rfl, fun hne =>
        absurd rfl hne⟩
  | takeImports =>
    exact ⟨h.takeImports, fun f hf => (by cases hf),
      fun i s hs => ⟨_, (getElem?_takeImports t i).trans
      (congrArg _ hs), rfl, fun _ => rfl⟩, fun hne => absurd rfl hne⟩

omit h in
/-- By induction on the calls, each of which is safe. -/
theorem consistent_after (calls : List Call) : (after calls).Consistent := by
  suffices hrun : ∀ t : Table, t.Consistent →
      (calls.foldl (fun t c => (c.perform.run t).2) t).Consistent from hrun {} consistent_empty
  induction calls with
  | nil => exact fun _ h => h
  | cons c rest ih => exact fun t h => ih _ (h.perform_safe c).consistent

/-! ## Walks to the root -/

/-- The walk from a scope to the root: each scope is the parent of the one before, and the last has
no parent. -/
inductive Walk (t : Table) : Nat → List Scope → Prop where
  | root {i : Nat} {s : Scope} (hs : t.scopes[i]? = some s) (hp : s.parent = none) : Walk t i [s]
  | up {i p : Nat} {s : Scope} {rest : List Scope} (hs : t.scopes[i]? = some s)
      (hp : s.parent = some p) (hrest : Walk t p rest) : Walk t i (s :: rest)

omit h in
theorem outward_cons {n : Nat} (hs : t.scopes[i]? = some s) (hn : i < n) :
    t.outward n i = s :: (s.parent.map fun p : Nat => t.outward (n - 1) p).getD [] := by
  obtain ⟨n, rfl⟩ := Nat.exists_eq_add_one.mpr (Nat.zero_lt_of_lt hn)
  rw [outward, scope?_natCast, hs]
  dsimp only
  cases s.parent <;> rfl

/-- A walk needs no more steps than the place it starts from, since parents come first. -/
theorem Consistent.walk_outward {steps : Nat} (hi : i < t.scopes.size)
    (hsteps : i < steps) : t.Walk i (t.outward steps i) := by
  induction steps generalizing i with
  | zero => omega
  | succ steps ih =>
    have hs := Array.getElem?_eq_getElem hi
    rw [outward_cons hs hsteps]
    cases hp : t.scopes[i].parent with
    | none => exact .root hs hp
    | some p =>
      have hlt := (h.parent_below hs hp).1
      exact .up hs hp (ih (by omega) (by omega))

theorem Consistent.walk (hi : i < t.scopes.size) : t.Walk i (t.enclosing i) := h.walk_outward hi hi

end

end Table

end UnitCheck
