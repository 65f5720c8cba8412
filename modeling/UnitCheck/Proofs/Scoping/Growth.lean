import Mathlib.Logic.Relation
import UnitCheck.Scoping.Lookup

/-!
# Growing tables and what can be seen in them

No operation takes a scope or a symbol off a table. `Table.Grows` says what stays: the place of each
scope in the tree, and of each symbol the name, the place, the kind, the members and the mark of
use.

`entered` and `withSymbol` are the tables that opening a scope and declaring a name lead to; each
operation is shown to give one of them, so that no later proof opens the operations again.

`Sees t c i` — names of the scope `i` can be reached from the scope `c`: `i` is a scope around `c`,
or the members of something that belongs to such a scope, to any depth. Blocks and bodies are never
reached from outside, however large the table gets.
-/

namespace UnitCheck

open Relation Option

variable {c e i p id : Nat} {t t' : Table} {s : Scope} {f : Symbol → Symbol} {y : Symbol}

/-- What is found at an index stands at one that exists. -/
theorem lt_of_get? {α : Type} {a : Array α} {x : α} (h : a[i]? = some x) : i < a.size :=
  (Array.getElem?_eq_some_iff.mp h).1

/-- What stays of a symbol whatever is written to it. -/
structure Symbol.Stays (y y' : Symbol) : Prop where
  id_eq : y'.id = y.id
  kind_eq : y'.kind = y.kind
  scope_eq : y'.scope = y.scope
  name_eq : y'.name = y.name
  pos_eq : y'.pos = y.pos
  alias_eq : y'.aliasOf = y.aliasOf
  members_eq : ∀ m, y.members = some m → y'.members = some m
  used : y.used = true → y'.used = true

theorem Symbol.Stays.refl (y : Symbol) : y.Stays y :=
  ⟨rfl, rfl, rfl, rfl, rfl, rfl, fun _ h => h, fun h => h⟩

theorem Symbol.Stays.trans {y' y'' : Symbol} (h : y.Stays y') (h' : y'.Stays y'') : y.Stays y'' :=
  ⟨h'.id_eq.trans h.id_eq, h'.kind_eq.trans h.kind_eq, h'.scope_eq.trans h.scope_eq,
    h'.name_eq.trans h.name_eq, h'.pos_eq.trans h.pos_eq, h'.alias_eq.trans h.alias_eq,
    fun m hm => h'.members_eq m (h.members_eq m hm), fun hu => h'.used (h.used hu)⟩

theorem Symbol.stays_withMembers (hnone : y.members = none)
    (m : Nat) : y.Stays { y with members := some m } :=
  ⟨rfl, rfl, rfl, rfl, rfl, rfl, fun _ hm => (nomatch hnone.symm.trans hm), fun h => h⟩

/-- A change to symbols that gives them no members either. -/
structure Symbol.Amends (f : Symbol → Symbol) : Prop where
  id_eq : ∀ y, (f y).id = y.id
  kind_eq : ∀ y, (f y).kind = y.kind
  scope_eq : ∀ y, (f y).scope = y.scope
  members_eq : ∀ y, (f y).members = y.members
  alias_eq : ∀ y, (f y).aliasOf = y.aliasOf
  name_eq : ∀ y, (f y).name = y.name
  pos_eq : ∀ y, (f y).pos = y.pos
  used : ∀ y, y.used = true → (f y).used = true

theorem Symbol.Amends.of_same
    (h : ∀ y, ((f y).id, (f y).kind, (f y).scope, (f y).members, (f y).aliasOf,
      (f y).name, (f y).pos) =
      (y.id, y.kind, y.scope, y.members, y.aliasOf, y.name, y.pos))
    (hused : ∀ y, y.used = true → (f y).used = true := by simp) : Symbol.Amends f := by
  simp only [Prod.mk.injEq, forall_and] at h
  obtain ⟨hid, hkind, hscope, hmembers, halias, hname, hpos⟩ := h
  exact ⟨hid, hkind, hscope, hmembers, halias, hname, hpos, hused⟩

theorem Symbol.Amends.stays (hf : Symbol.Amends f) (y : Symbol) : y.Stays (f y) :=
  ⟨hf.id_eq y, hf.kind_eq y, hf.scope_eq y, hf.name_eq y, hf.pos_eq y, hf.alias_eq y,
    fun m hm => by rw [hf.members_eq, hm], hf.used y⟩

/-- Whether the names of a scope are members that a path can go through. -/
def ScopeKind.holdsMembers : ScopeKind → Bool
  | moduleBody | traitBody | typeBody => true
  | _ => false

/-- The kind of the scope that holds a symbol's members. -/
def SymbolKind.body : SymbolKind → ScopeKind
  | function => .functionBody
  | traitType => .traitBody
  | moduleBlock => .moduleBody
  | implementation => .implBody
  | _ => .typeBody

theorem SymbolKind.holdsMembers_body {kind : SymbolKind} (h : kind.isContainer = true) :
    kind.body.holdsMembers = true := by
  cases kind <;> first | rfl | cases h

namespace Table

/-! ## The tree of scopes -/

def Parent (t : Table) (i p : Nat) : Prop := ∃ s, t.scopes[i]? = some s ∧ s.parent = some p

/-- A step to the parent that leaves members behind. -/
def MemberOf (t : Table) (i p : Nat) : Prop :=
  ∃ s, t.scopes[i]? = some s ∧ s.parent = some p ∧ s.kind.holdsMembers = true

/-- `inner` is `outer` or lies somewhere below it. -/
def Inside (t : Table) (inner outer : Nat) : Prop := ReflTransGen t.Parent inner outer

def Sees (t : Table) (c i : Nat) : Prop := ∃ e, t.Inside c e ∧ ReflTransGen t.MemberOf i e

theorem MemberOf.parent (h : t.MemberOf i p) : t.Parent i p := by
  obtain ⟨s, hs, hp, -⟩ := h
  exact ⟨s, hs, hp⟩

theorem parent_unique {q : Nat} (hp : t.Parent i p) (hq : t.Parent i q) : p = q := by
  obtain ⟨s, hs, hp⟩ := hp
  obtain ⟨s', hs', hq⟩ := hq
  obtain rfl := mem_unique hs hs'
  exact mem_unique hp hq

/-- Two walks up from one scope, the first of which leaves members only: the end of the second lies
on the way of the first, or above it. -/
theorem memberOf_or_inside {a b : Nat} (ha : ReflTransGen t.MemberOf i a) (hb : t.Inside i b) :
    ReflTransGen t.MemberOf b a ∨ t.Inside a b := by
  induction ha using ReflTransGen.head_induction_on with
  | refl => exact .inr hb
  | head hstep hrest ih =>
    rcases hb.cases_head with rfl | ⟨p, hp, hpb⟩
    · exact .inl (.head hstep hrest)
    · obtain rfl := parent_unique hp hstep.parent
      exact ih hpb

theorem Inside.sees (h : t.Inside c e) : t.Sees c e := ⟨e, h, .refl⟩

/-- What is seen from an outer scope is seen from an inner one. -/
theorem Sees.of_inside (hc : t.Inside c e) (h : t.Sees e i) : t.Sees c i := by
  obtain ⟨a, hea, hia⟩ := h
  exact ⟨a, hc.trans hea, hia⟩

theorem Sees.trans {j : Nat} (h : t.Sees c i) (h' : t.Sees i j) : t.Sees c j := by
  obtain ⟨a, hca, hia⟩ := h
  obtain ⟨b, hib, hjb⟩ := h'
  rcases memberOf_or_inside hia hib with hba | hab
  · exact ⟨a, hca, hjb.trans hba⟩
  · exact ⟨b, hca.trans hab, hjb⟩

/-- The symbol belongs to a scope that is seen. -/
def SeesSymbol (t : Table) (c id : Nat) : Prop := ∃ y, t.symbols[id]? = some y ∧ t.Sees c y.scope

/-! ## Growth -/

structure Grows (t t' : Table) : Prop where
  scope : ∀ {i : Nat} {s : Scope}, t.scopes[i]? = some s →
    ∃ s', t'.scopes[i]? = some s' ∧ s'.parent = s.parent ∧ s'.kind = s.kind
  symbol : ∀ {i : Nat} {y : Symbol}, t.symbols[i]? = some y →
    ∃ y', t'.symbols[i]? = some y' ∧ y.Stays y'

theorem Grows.refl (t : Table) : t.Grows t := ⟨fun h => ⟨_, h, rfl, rfl⟩, fun h => ⟨_, h, .refl _⟩⟩

section

variable (h : t.Grows t')
include h

theorem Grows.trans {t'' : Table} (h' : t'.Grows t'') : t.Grows t'' := by
  constructor
  · intro i s hs
    obtain ⟨s', hs', hp, hk⟩ := h.scope hs
    obtain ⟨s'', hs'', hp', hk'⟩ := h'.scope hs'
    exact ⟨s'', hs'', hp'.trans hp, hk'.trans hk⟩
  · intro i y hy
    obtain ⟨y', hy', hst⟩ := h.symbol hy
    obtain ⟨y'', hy'', hst'⟩ := h'.symbol hy'
    exact ⟨y'', hy'', hst.trans hst'⟩

theorem Grows.scopes_le : t.scopes.size ≤ t'.scopes.size := by
  refine Nat.le_of_not_lt fun hi => ?_
  obtain ⟨s', hs', -⟩ := h.scope (Array.getElem?_eq_getElem hi)
  have hlt' := lt_of_get? hs'
  omega

theorem Grows.symbols_le : t.symbols.size ≤ t'.symbols.size := by
  refine Nat.le_of_not_lt fun hi => ?_
  obtain ⟨y', hy', -⟩ := h.symbol (Array.getElem?_eq_getElem hi)
  have hlt' := lt_of_get? hy'
  omega

theorem Grows.parent (hp : t.Parent i p) : t'.Parent i p := by
  obtain ⟨s, hs, hp⟩ := hp
  obtain ⟨s', hs', hp', -⟩ := h.scope hs
  exact ⟨s', hs', hp'.trans hp⟩

theorem Grows.memberOf (hm : t.MemberOf i p) : t'.MemberOf i p := by
  obtain ⟨s, hs, hp, hk⟩ := hm
  obtain ⟨s', hs', hp', hk'⟩ := h.scope hs
  exact ⟨s', hs', hp'.trans hp, hk' ▸ hk⟩

theorem Grows.inside (hi : t.Inside i e) : t'.Inside i e :=
  ReflTransGen.mono (fun _ _ => h.parent) i e hi

theorem Grows.symbol_inside (hi : ∃ y, t.symbols[i]? = some y ∧ t.Inside y.scope e) :
    ∃ y, t'.symbols[i]? = some y ∧ t'.Inside y.scope e := by
  obtain ⟨y, hy, hin⟩ := hi
  obtain ⟨y', hy', hst⟩ := h.symbol hy
  refine ⟨y', hy', ?_⟩
  rw [hst.scope_eq]
  exact h.inside hin

theorem Grows.sees (hs : t.Sees c i) : t'.Sees c i := by
  obtain ⟨e, hce, hie⟩ := hs
  exact ⟨e, h.inside hce, ReflTransGen.mono (fun _ _ => h.memberOf) i e hie⟩

theorem Grows.seesSymbol (hs : t.SeesSymbol c id) : t'.SeesSymbol c id := by
  obtain ⟨y, hy, hsees⟩ := hs
  obtain ⟨y', hy', hst⟩ := h.symbol hy
  refine ⟨y', hy', ?_⟩
  rw [hst.scope_eq]
  exact h.sees hsees

end

/-! ## Growth of one symbol or scope -/

theorem getElem?_updateSymbol (t : Table) (id : Nat) (f : Symbol → Symbol) (i : Nat) :
    (t.updateSymbol id f).symbols[i]? = (t.symbols[i]?).map fun y => if id = i then f y else y := by
  simp only [updateSymbol, Array.getElem?_modify]
  split <;> simp

theorem getElem?_updateScope (t : Table) (id : Nat) (f : Scope → Scope) (i : Nat) :
    (t.updateScope id f).scopes[i]? = (t.scopes[i]?).map fun s => if id = i then f s else s := by
  simp only [updateScope, Array.getElem?_modify]
  split <;> simp

theorem grows_updateSymbol (hf : ∀ y, t.symbols[id]? = some y → y.Stays (f y)) :
    t.Grows (t.updateSymbol id f) := by
  refine ⟨fun h => ⟨_, h, rfl, rfl⟩, ?_⟩
  intro i y hy
  rw [getElem?_updateSymbol, hy]
  refine ⟨_, rfl, ?_⟩
  split
  · next hid => exact hf y (hid ▸ hy)
  · exact .refl y

/-- What is new may be filled in. -/
theorem Grows.fill (h : t.Grows t') (hid : t.symbols.size ≤ id) :
    t.Grows (t'.updateSymbol id f) := by
  refine ⟨fun hs => h.scope hs, fun {i y} hy => ?_⟩
  have hi := lt_of_get? hy
  obtain ⟨y', hy', hst⟩ := h.symbol hy
  refine ⟨y', ?_, hst⟩
  rw [getElem?_updateSymbol, hy', map_some, if_neg (by omega)]

/-- A change to what a scope holds, not to its place in the tree. -/
structure Rewrites (f : Scope → Scope) : Prop where
  parent_eq : ∀ s, (f s).parent = s.parent
  kind_eq : ∀ s, (f s).kind = s.kind

theorem Rewrites.ite {f : Scope → Scope} (hf : Rewrites f) (p : Prop) [Decidable p] :
    Rewrites fun s => if p then f s else s := by
  constructor <;> intro s <;> split <;> simp [hf.parent_eq, hf.kind_eq]

/-- Scopes are rewritten one by one, and the symbols are kept. -/
theorem grows_of_rewrites {f : Nat → Scope → Scope} (hf : ∀ i, Rewrites (f i))
    (hscopes : ∀ i, t'.scopes[i]? = (t.scopes[i]?).map (f i)) (hsymbols : t'.symbols = t.symbols) :
    t.Grows t' := by
  constructor
  · intro i s hs
    exact ⟨f i s, by rw [hscopes, hs]; rfl, (hf i).parent_eq s, (hf i).kind_eq s⟩
  · intro i y hy
    exact ⟨y, by rw [hsymbols, hy], .refl y⟩

theorem grows_updateScope {f : Scope → Scope} (hf : Rewrites f) : t.Grows (t.updateScope id f) :=
  grows_of_rewrites (fun i => hf.ite (id = i)) (getElem?_updateScope t id f) rfl

theorem grows_goto (t : Table) (id : Nat) : t.Grows { t with current := id } :=
  ⟨fun h => ⟨_, h, rfl, rfl⟩, fun h => ⟨_, h, .refl _⟩⟩

theorem grows_markUsed (t : Table) (id : Nat) : t.Grows (t.markUsed id) :=
  grows_updateSymbol fun _ _ => ⟨rfl, rfl, rfl, rfl, rfl, rfl, fun _ h => h, fun _ => rfl⟩

/-! ## Access -/

theorem scope?_natCast (t : Table) (i : Nat) : t.scope? (i : Int) = t.scopes[i]? := by
  rw [scope?, if_neg (by omega), Int.toNat_natCast]

theorem symbol?_natCast (t : Table) (i : Nat) : t.symbol? (i : Int) = t.symbols[i]? := by
  rw [symbol?, if_neg (by omega), Int.toNat_natCast]

theorem symbol_of_get? (h : t.symbols[id]? = some y) : t.symbol id = y := by
  simp [symbol, Array.getD_eq_getD_getElem?, h]

theorem scope_of_get? (h : t.scopes[id]? = some s) : t.scope id = s := by
  simp [scope, Array.getD_eq_getD_getElem?, h]

theorem lookupIn_of_get? {m : Nat} (hs : t.scopes[m]? = some s) (name : String) :
    t.lookupIn m name = s.names.lookup name := by
  rw [lookupIn, scope?_natCast, hs]

/-! ## The stack of scopes -/

theorem rewrites_children (f : Scope → List Nat) : Rewrites fun s => { s with children := f s } :=
  ⟨fun _ => rfl, fun _ => rfl⟩

/-- The scope that is opened below the current one. -/
def newScope (t : Table) (kind : ScopeKind) : Scope :=
  { id := t.scopes.size, kind, parent := some t.current, depth := (t.scope t.current).depth + 1 }

/-- The current scope with one more child. -/
def withChild (t : Table) : Table :=
  t.updateScope t.current fun p => { p with children := p.children ++ [t.scopes.size] }

/-- The table after a new scope has been opened. -/
def entered (t : Table) (kind : ScopeKind) : Table :=
  { t.withChild with scopes := t.withChild.scopes.push (t.newScope kind), current := t.scopes.size }

theorem enter_run (t : Table) (kind : ScopeKind) :
    (enter kind).run t = (t.scopes.size, t.entered kind) := rfl

theorem size_withChild (t : Table) : t.withChild.scopes.size = t.scopes.size := by
  simp [withChild, Table.updateScope]

theorem getElem?_entered (t : Table) (kind : ScopeKind) (i : Nat) : (t.entered kind).scopes[i]? =
      if i = t.scopes.size then some (t.newScope kind) else t.withChild.scopes[i]? := by
  simp only [entered, Array.getElem?_push, size_withChild]

theorem entered_scope (t : Table) (kind : ScopeKind) :
    (t.entered kind).scopes[t.scopes.size]? = some (t.newScope kind) := by
  rw [getElem?_entered, if_pos rfl]

theorem grows_withChild (t : Table) : t.Grows t.withChild :=
  grows_updateScope (rewrites_children fun p => p.children ++ [t.scopes.size])

theorem grows_entered (t : Table) (kind : ScopeKind) : t.Grows (t.entered kind) := by
  constructor
  · intro i s hs
    have hi := lt_of_get? hs
    rw [getElem?_entered, if_neg (by omega)]
    exact t.grows_withChild.scope hs
  · intro i y hy
    exact ⟨y, hy, .refl y⟩

theorem reenter_eq (t : Table) (id : Int) : (reenter id).run t =
      match t.scope? id with
      | none => (Except.error (ScopeFault.missing id), t)
      | some s =>
        if s.parent = some t.current then (.ok (), { t with current := s.id })
        else (.error (.notChild id t.current), t) := by
  unfold reenter
  simp only [StateT.run_bind, StateT.run_get, pure_bind]
  cases t.scope? id with
  | none => rfl
  | some s =>
    dsimp only
    split <;> rfl

theorem exit_eq (t : Table) : exit.run t =
      match (t.scope t.current).parent with
      | none => (Except.error ScopeFault.leavingGlobal, t)
      | some parent => (.ok t.current, { t with current := parent }) := by
  unfold exit
  simp only [StateT.run_bind, StateT.run_get, pure_bind]
  cases (t.scope t.current).parent <;> rfl

/-- A scope that has a parent can be left. -/
theorem exit_run (hp : t.Parent t.current p) :
    exit.run t = (.ok t.current, { t with current := p }) := by
  obtain ⟨s, hs, hp⟩ := hp
  rw [exit_eq, scope_of_get? hs, hp]

/-! ## Declarations -/

/-- The table after a name has been declared. -/
def withSymbol (t : Table) (scope : Nat) (name : String) (kind : SymbolKind) (pos : Position) :
    Table :=
  let t' := t.updateScope scope fun s => { s with names := s.names ++ [(name, t.symbols.size)] }
  { t' with symbols := t'.symbols.push { id := t.symbols.size, name, kind, scope, pos } }

section

variable (t : Table) (scope : Nat) (name : String) (kind : SymbolKind) (pos : Position)

theorem getElem?_withSymbol (i : Nat) : (t.withSymbol scope name kind pos).symbols[i]? =
      if i = t.symbols.size then some { id := t.symbols.size, name, kind, scope, pos }
      else t.symbols[i]? := by
  simp only [withSymbol, updateScope, Array.getElem?_push]

theorem withSymbol_symbol : (t.withSymbol scope name kind pos).symbols[t.symbols.size]? =
      some { id := t.symbols.size, name, kind, scope, pos } := by
  rw [getElem?_withSymbol, if_pos rfl]

theorem withSymbol_scope (hs : t.scopes[i]? = some s) :
    (t.withSymbol scope name kind pos).scopes[i]? =
      some (if scope = i then { s with names := s.names ++ [(name, t.symbols.size)] } else s) := by
  show (t.updateScope scope _).scopes[i]? = _
  rw [getElem?_updateScope, hs]
  rfl

theorem rewrites_names (f : Scope → List (String × Nat)) : Rewrites fun s =>
  { s with names := f s } :=
  ⟨fun _ => rfl, fun _ => rfl⟩

theorem grows_withSymbol : t.Grows (t.withSymbol scope name kind pos) := by
  have hg : t.Grows (t.updateScope scope fun s =>
      { s with names := s.names ++ [(name, t.symbols.size)] }) :=
    grows_updateScope (rewrites_names _)
  refine ⟨hg.scope, ?_⟩
  intro i y hy
  have hi := lt_of_get? hy
  refine ⟨y, ?_, .refl y⟩
  rw [getElem?_withSymbol, if_neg (by omega), hy]

end

/-- A declaration in full. -/
theorem declareIn_eq (t : Table) (scope : Int) (name : String) (kind : SymbolKind)
    (pos : Position) :
    (declareIn scope name kind pos).run t =
      match t.scope? scope with
      | none => (Except.error (DeclareFault.noScope scope), t)
      | some s =>
        match s.names.lookup name with
        | some previous => (.error (.taken name (t.symbol previous)), t)
        | none => (.ok t.symbols.size, t.withSymbol s.id name kind pos) := by
  unfold declareIn
  simp only [StateT.run_bind, StateT.run_get, pure_bind]
  cases t.scope? scope with
  | none => rfl
  | some s =>
    dsimp only
    cases s.names.lookup name <;> rfl

/-- What declaring a name can do, whatever scope is asked for. -/
theorem declareIn_cases (t : Table) (scope : Int) (name : String) (kind : SymbolKind)
    (pos : Position) :
    (∃ f, (declareIn scope name kind pos).run t = (.error f, t)) ∨
      ∃ c, (declareIn scope name kind pos).run t =
        (.ok t.symbols.size, t.withSymbol c name kind pos) := by
  rw [declareIn_eq]
  split
  · exact .inl ⟨_, rfl⟩
  · split
    · exact .inl ⟨_, rfl⟩
    · exact .inr ⟨_, rfl⟩

/-! ## Imports -/

theorem getElem?_takeImports (t : Table) (i : Nat) :
    (takeImports.run t).2.scopes[i]? = (t.scopes[i]?).map fun s => { s with imports := [] } :=
  Array.getElem?_map

end Table

end UnitCheck
