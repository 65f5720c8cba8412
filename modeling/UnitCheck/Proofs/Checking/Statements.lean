import UnitCheck.Checking.Patterns
import UnitCheck.Proofs.Checking.Expressions

/-!
# Names, patterns and statements

Declaring names, giving them types, matching patterns, and the parts of statements that evaluate
expressions. All of them end well on every good store. Only the value of a binding may leave a
record behind, under the current scope.
-/

namespace UnitCheck

open Checking List Option Ledger

variable {id scope : Nat} {kind : SymbolKind} {t type : Ty} {y : Symbol} {e : Expr}
  {f : Symbol → Symbol}
  {name : String}

/-- A symbol that has just been declared: nothing leads from it anywhere, and it is not kept as a
variable. -/
structure Store.New (s : Store) (id : Nat) (name : String) (kind : SymbolKind)
    (scope : Nat) : Prop where
  symbol : ∃ y, s.table.symbols[id]? = some y ∧ y.kind = kind ∧ y.scope = scope ∧
    y.members = none ∧ y.aliasOf = none ∧ y.name = name
  untracked : s.ledger.isTracked id = false

/-- What declaring a name has to give. -/
def Store.Declares (name : String) (kind : SymbolKind) (scope : Nat) (s : Store) :
    Except DeclareFault Nat → Prop
  | .ok id => s.New id name kind scope
  | .error fault => ∀ {A : Sites} {pos : Position}, A.covers pos → (fault.diagnostic pos).Clean A

theorem Store.New.amend {s : Store} (hnew : s.New id name kind scope) (hf : Symbol.Amends f) :
    { s with table := s.table.updateSymbol id f }.New id name kind scope := by
  obtain ⟨⟨y, hy, hk, hs, hm, ha, hn⟩, hu⟩ := hnew
  refine ⟨⟨f y, ?_, (hf.kind_eq y).trans hk, (hf.scope_eq y).trans hs, (hf.members_eq y).trans hm,
    (hf.alias_eq y).trans ha, (hf.name_eq y).trans hn⟩, hu⟩
  rw [Table.getElem?_updateSymbol, hy]
  simp

/-- What taking a type apart has to give. -/
def Store.Parts (A : Sites) (s : Store) : Except (List Diagnostic) (List Ty) → Prop
  | .ok types => ∀ t ∈ types, s.registry.Holds t
  | .error faults => AllClean A faults

namespace Checking

section

variable {ρ : Rights} {s : Store} {pos : Position} {α : Type} {A : Sites}

theorem onTable_run {x : TableM α} {a : α} {t : Table} (hrun : x.run s.table = (a, t)) :
    (onTable x).run s = (a, { s with table := t }) := by
  show ((x.run s.table).1, { s with table := (x.run s.table).2 }) = _
  rw [hrun]

section

variable (h : s.Good) {payload : Option Ty} {P : Int → Prop}
include h

/-- A change to the table that stays in the current scope. -/
theorem Ends.onTable {x : TableM α} {a : α} {t : Table} {Q : Store → α → Prop}
    (hrun : x.run s.table = (a, t))
    (hsound : t.Sound) (hgrows : s.table.Grows t) (hcurrent : t.current = s.table.current)
    (htyped : ∀ {i : Nat} {y : Symbol}, t.symbols[i]? = some y → s.registry.Admits y)
    (hc : s.Orderly ρ.sites → s.Completes ρ.sites { s with table := (x.run s.table).2 })
    (hq : Q { s with table := t } a) : Ends ρ s (onTable x) Q := by
  rw [hrun] at hc
  have hrun := onTable_run hrun
  constructor <;> rw [hrun]
  · exact h.withTable hsound hgrows htyped
  · exact Store.evaluates_withTable ρ s hgrows hcurrent hc
  · exact hq

/-! ## Symbols -/

theorem updateSymbol_ends (id : Nat) (hf : Symbol.Amends f)
    (htyped : ∀ y, s.table.symbols[id]? = some y → s.registry.Admits (f y))
    (htype : s.Orderly ρ.sites → ∀ y, s.table.symbols[id]? = some y → y.kind.isNominal = true →
      (f y).type = y.type) : Ends ρ s (updateSymbol id f) fun s' _ =>
      s' = { s with table := s.table.updateSymbol id f } := by
  obtain ⟨hsound, hgrows⟩ := h.table.amendSymbol id hf
  exact .onTable h rfl hsound hgrows rfl (typed_updateSymbol h.typed htyped)
    (fun ho => ho.revise id hf (htype ho)) rfl

theorem typed_withSymbol (scope : Nat) (name : String) (kind : SymbolKind) (pos : Position)
    {i : Nat} (hy : (s.table.withSymbol scope name kind pos).symbols[i]? = some y) :
    s.registry.Admits y := by
  rw [Table.getElem?_withSymbol] at hy
  split at hy
  · obtain rfl := some.inj hy
    exact ⟨fun t ht => (by cases ht), fun _ t ht => (by cases ht), fun v hv => (by cases hv)⟩
  · exact h.typed hy

theorem new_withSymbol (scope : Nat) (name : String) (kind : SymbolKind) (pos : Position) :
    { s with table :=
      s.table.withSymbol scope name kind pos }.New s.table.symbols.size name kind scope :=
  ⟨⟨_, s.table.withSymbol_symbol scope name kind pos, rfl, rfl, rfl, rfl, rfl⟩, h.isTracked_size⟩

/-- A declaration in a scope gives a new symbol, or the name is taken. -/
theorem declareIn_ends (hscope : scope < s.table.scopes.size) (name : String)
    (hk : ρ.sites.settled → kind.isNominal = false) (hpos : ρ.sites.covers pos) :
    Ends ρ s (onTable (Table.declareIn scope name kind pos)) (Store.Declares name kind scope) := by
  have hc := fun ho : s.Orderly ρ.sites => ho.declareIn scope name hk hpos
  rcases h.table.declareIn_run hscope name kind pos with ⟨previous, hrun⟩ | ⟨hsound, hrun⟩
  · exact .onTable h hrun h.table (.refl _) rfl h.typed hc fun hpos =>
      DeclareFault.clean_taken _ _ hpos
  · exact .onTable h hrun hsound (s.table.grows_withSymbol scope name kind pos) rfl
      (typed_withSymbol h scope name kind pos) hc (new_withSymbol h scope name kind pos)

omit h in
/-- What a declaration with a type does to a sound table. -/
theorem declareTyped_run {t : Table} (h : t.Sound) (name : String) (kind : SymbolKind)
    (pos : Position) (type : Option Ty) (mutable : Bool) :
    (∃ previous, (Table.declareTyped name kind pos type mutable).run t =
      (.error (.taken name previous), t)) ∨
      (t.withSymbol t.current name kind pos).Sound ∧
      (Table.declareTyped name kind pos type mutable).run t =
          (.ok t.symbols.size, (t.withSymbol t.current name kind pos).updateSymbol t.symbols.size
            fun s => { s with type, mutable }) := by
  unfold Table.declareTyped Table.declare
  simp only [StateT.run_bind, StateT.run_get, pure_bind]
  rcases h.declareIn_run h.current_lt name kind pos with ⟨previous, hrun⟩ | ⟨hsound, hrun⟩
  · rw [hrun]
    exact .inl ⟨previous, rfl⟩
  · rw [hrun]
    exact .inr ⟨hsound, rfl⟩

/-- Declaring a name with a type that need not be named. -/
theorem declareTyped_ends (name : String) (hk : kind.isNominal = false)
    (hpos : ρ.sites.covers pos) {type : Option Ty} (ht : ∀ t, type = some t → s.Holds t)
    (mutable : Bool) : Ends ρ s (onTable (Table.declareTyped name kind pos type mutable))
      (Store.Declares name kind s.table.current) := by
  have hc := fun ho : s.Orderly ρ.sites => ho.declareTyped name hk hpos type mutable
  rcases declareTyped_run h.table name kind pos type mutable with ⟨previous, hrun⟩ | ⟨hsound, hrun⟩
  · exact .onTable h hrun h.table (.refl _) rfl h.typed hc fun hpos =>
      DeclareFault.clean_taken _ _ hpos
  · have hf : Symbol.Amends fun s => { s with type, mutable } := .of_same fun _ => rfl
    have hnew := new_withSymbol h s.table.current name kind pos
    have hgrows := s.table.grows_withSymbol s.table.current name kind pos
    obtain ⟨hsound', hgrows'⟩ := hsound.amendSymbol s.table.symbols.size hf
    refine .onTable h hrun hsound' (hgrows.trans hgrows') rfl ?_ hc (Store.New.amend hnew hf)
    refine typed_updateSymbol (typed_withSymbol h _ name kind pos) fun y hy => ?_
    obtain ⟨⟨y', hy', hkind, -⟩, -⟩ := hnew
    obtain rfl := mem_unique hy hy'
    exact (typed_withSymbol h _ name kind pos hy).retyped (by rwa [← hkind] at hk) ht rfl

/-! ## Variables -/

/-- A variable may be tracked whatever it is declared with. -/
theorem declare_good (hy : s.table.symbols[id]? = some y) (name : String)
    (mutable initialized : Bool) (trail : List VarEvent) :
    { s with ledger := s.ledger.declare id name mutable initialized, trail }.Good := by
  refine h.withLedger (h.ledger.put id ?_) (h.spent.put id fun _ => rfl) ?_ ?_
  · exact .inl (by simp)
  · rw [declare, put]
    split
    · exact h.temporary_lt
    · exact h.temporary_lt
  · intro i hi
    rw [declare, isTracked_put, Bool.or_eq_true, decide_eq_true_eq] at hi
    rcases hi with rfl | hi
    · exact ⟨id, rfl, lt_of_get? hy⟩
    · exact h.tracked_lt hi

omit h in
/-- A variable of the current scope that is tracked from now on. -/
theorem declare_reaches (hy : s.table.symbols[id]? = some y) (hscope : y.scope = s.table.current)
    (name : String) (mutable initialized : Bool) :
    s.Reaches P { s with
      ledger := s.ledger.declare id name mutable initialized
      trail := .declared id initialized :: s.trail } where
  registry := .refl _
  table := .refl _
  current := rfl
  records := under_declare _ _ name mutable initialized
  holdings := by
    intro i k hk
    rw [declare, get?_put]
    split
    next heq =>
      refine ⟨_, rfl, fun hno => absurd ?_ hno⟩
      exact ⟨[.declared id initialized], rfl, id, initialized, heq, by simp⟩
    · exact ⟨k, hk, fun _ => rfl⟩
  fresh := by
    intro i hi
    have hi : (s.ledger.declare id name mutable initialized).isTracked i = true := hi
    rw [declare, isTracked_put, Bool.or_eq_true, decide_eq_true_eq] at hi
    rcases hi with heq | hi
    · refine .inr ⟨y, ?_, ?_⟩
      · rwa [show i = id by omega]
      · rw [hscope]
        exact .refl
    · exact .inl hi
  temporary_le := Int.le_of_eq (nextTemporary_put _ _ _)
  trail := suffix_cons _ _
  declared := by
    rintro i ⟨evs, htrail, j, init, hij, hmem⟩
    obtain rfl : [VarEvent.declared id initialized] = evs := append_cancel_right htrail
    obtain ⟨rfl, -⟩ := VarEvent.declared.inj (mem_singleton.mp hmem)
    obtain rfl := Int.ofNat.inj hij
    refine ⟨y, hy, ?_⟩
    rw [hscope]
    exact .refl

omit h in
/-- Tracking a variable anew takes no value from it. -/
theorem declare_keeps (id : Nat) (name : String) (mutable : Bool) {initialized : Bool}
    (hinit : s.ledger.isTracked id = true → initialized = true) :
    s.Keeps P { s with
      ledger := s.ledger.declare id name mutable initialized
      trail := .declared id initialized :: s.trail } := by
  -- only `id` is tracked anew, and the trail says so
  have hcases : ∀ {i : Int} {k k' : Holding}, s.ledger.get? i = some k →
      (s.ledger.declare id name mutable initialized).get? i = some k' →
        (i = id ∧ k'.initialized = initialized) ∨ k' = k := by
    intro i k k' hk hk'
    rw [declare, get?_put] at hk'
    split at hk'
    next heq =>
      obtain rfl := some.inj hk'
      exact .inl ⟨heq, rfl⟩
    · exact .inr (mem_unique hk' hk)
  have hdeclared : s.Declared { s with
      ledger := s.ledger.declare id name mutable initialized
      trail := .declared id initialized :: s.trail } id :=
    ⟨[.declared id initialized], rfl, id, initialized, rfl, by simp⟩
  constructor
  · intro i k k' hk hk' hi
    rcases hcases hk hk' with ⟨rfl, heq⟩ | rfl
    · rw [heq]
      exact hinit (isTracked_iff.mpr ⟨k, hk⟩)
    · exact hi
  · intro i k k' hno hk hk' hm
    rcases hcases hk hk' with ⟨rfl, -⟩ | rfl
    · exact absurd hdeclared hno
    · exact hm
  · intro _ i k k' hno hk hk' _
    rcases hcases hk hk' with ⟨rfl, -⟩ | rfl
    · exact absurd hdeclared hno
    · exact Holding.apart_sublist P _

theorem keep_ends (hnew : s.New id name kind s.table.current) (mutable initialized : Bool) :
    Ends ρ s (keep id name mutable initialized) fun _ _ => True := by
  obtain ⟨⟨y, hy, -, hscope, -⟩, hu⟩ := hnew
  refine ⟨declare_good h hy name mutable initialized _,
    ⟨declare_reaches hy hscope name mutable initialized, ⟨[.declared id initialized], rfl, ?_⟩, ?_,
      fun ho => ho.aside rfl rfl⟩, trivial⟩
  swap
  · exact fun _ => declare_keeps id name mutable fun ht =>
      absurd (hu.symm.trans ht) Bool.false_ne_true
  show Trace _ _ _ _ (s.ledger.declare id name mutable initialized).status
  rw [declare, status_put]
  exact .declared initialized .nil (status_eq_none hu)

/-- A local variable is declared with its type, and tracked from then on. -/
theorem declareLocal_ends (name : String) (hk : kind.isNominal = false) (hpos : ρ.sites.covers pos)
    (ht : s.Holds type) (mutable initialized : Bool) :
    Ends ρ s (declareLocal name kind pos type mutable initialized) fun _ ds =>
      AllClean ρ.sites ds := by
  unfold declareLocal
  have hdeclare : Ends ρ s (onTable (Table.declareTyped name kind pos (some type) mutable))
      (Store.Declares name kind s.table.current) :=
    declareTyped_ends h name hk hpos (fun t heq => some.inj heq ▸ ht) mutable
  refine hdeclare.bind fun out s' h' he hout => ?_
  cases out with
  | error fault => exact .pure h' (allClean_one (hout hpos))
  | ok id =>
    have hf : Symbol.Amends fun s => { s with initialized } := .of_same fun _ => rfl
    refine (updateSymbol_ends h' id hf (fun y hy => (h'.typed hy).of_eq rfl rfl rfl)
      fun _ _ _ _ => rfl).bind fun _ s'' h'' he' hs'' => ?_
    subst hs''
    have hnew := Store.New.amend hout hf
    rw [← he.current] at hnew
    exact (keep_ends h'' hnew mutable initialized).bind fun _ s₃ h₃ _ _ => .pure h₃ allClean_nil

/-- A symbol that need not have a named type gets one. -/
theorem setType_ends (hy : s.table.symbols[id]? = some y) (hk : y.kind.isNominal = false)
    (ht : s.Holds type) (hpos : ρ.sites.covers pos) : Ends ρ s (setType id type pos) fun _ ds =>
      AllClean ρ.sites ds := by
  -- the type is set at once, or as what it was unified to with the type that was there
  have hset : ∀ {s' : Store} {t : Ty}, s'.Good → s.Evaluates ρ s' → s'.Holds t →
      Ends ρ s' (do
        updateSymbol y.id fun s => { s with type := some t }
        return []) fun _ ds => AllClean ρ.sites ds := by
    intro s' t h' he ht
    have hf : Symbol.Amends fun s => { s with type := some t } := .of_same fun _ => rfl
    -- kinds do not change, so the symbol still need not have a named type
    have hkind : ∀ x, s'.table.symbols[y.id]? = some x → x.kind.isNominal = false := by
      intro x hx
      obtain ⟨y', hy', hst⟩ := he.table.symbol hy
      rw [h.table.symbol_id hy] at hx
      obtain rfl := mem_unique hx hy'
      rwa [hst.kind_eq]
    refine (updateSymbol_ends h' y.id hf (fun x hx => ?_) fun _ x hx hn => ?_).bind
      fun _ s'' h'' _ _ => .pure h'' allClean_nil
    · exact (h'.typed hx).retyped (hkind x hx) (fun u hu => some.inj hu ▸ ht) rfl
    · exact absurd ((hkind x hx).symm.trans hn) Bool.false_ne_true
  unfold setType
  refine .get ?_
  rw [Table.symbol?_natCast, hy]
  dsimp only
  split
  · exact hset h (.refl ρ s) ht
  next old hold =>
    split
    · exact hset h (.refl ρ s) ht
    have hold := (h.typed hy).holds old hold
    refine (unify_ends h hold ht).bind fun out s' h' he hout => ?_
    cases out with
    | ok u => exact hset h' he (hout u rfl)
    | error fault =>
      exact (mismatch_ends h' (he.holds hold) (he.holds ht) _ pos).imp fun _ _ hds => hds.clean hpos

/-! ## Patterns -/

/-- The parts of a tuple, or why it has not got so many; the place is filled in by the caller. -/
theorem tupleShape_ends (ht : s.Holds t) (n : Nat) :
    Ends ρ s (tupleShape t n) fun s' out =>
      match out with
      | .ok types => ∀ u ∈ types, s'.Holds u
      | .error d => d.code.aboutUnit = true ∧ d.pos = .unknown := by
  unfold tupleShape
  refine (resolve_ends h ht).bind fun t s' h' he ht => ?_
  split
  next elems =>
    refine .pure h' ?_
    split
    next hout =>
      split at hout
      · obtain rfl := Except.ok.inj hout
        exact fun u hu => h'.registry.holds_part ht (by simpa [Ty.parts] using hu)
      · cases hout
    next hout =>
      split at hout
      · cases hout
      · obtain rfl := Except.error.inj hout
        exact ⟨rfl, rfl⟩
  · split
    · exact .pure h' ⟨rfl, rfl⟩
    -- a variable becomes a tuple of new variables
    have hfresh : Ends ρ s' ((List.replicate n ()).mapM fun _ => fresh)
        fun s'' ts => ∀ u ∈ ts, s''.Holds u :=
      .mapM h' (fun he hu => he.holds hu) fun _ _ _ h => fresh_ends h
    refine hfresh.bind fun elems s'' h'' he' helems => ?_
    have hparts : ∀ u ∈ (Ty.tuple elems).parts, s''.Holds u := by
      simpa [Ty.parts] using helems
    refine (register_ends h'' (by simp) hparts).bind fun wanted s₃ h₃ he₃ hwanted => ?_
    refine (unify_ends h₃ (he₃.holds (he'.holds ht)) hwanted).bind fun out s₄ h₄ he₄ _ => ?_
    cases out with
    | ok _ => exact .pure h₄ fun u hu => he₄.holds (he₃.holds (helems u hu))
    | error fault =>
      refine .pure h₄ ?_
      cases fault <;> exact ⟨rfl, rfl⟩
  · refine .pure h' fun u hu => ?_
    rw [eq_of_mem_replicate hu]
    exact h'.registry.basic .invalid
  · exact .pure h' ⟨rfl, rfl⟩

theorem payloadShape_ends (y : Symbol) (hp : ∀ t, payload = some t → s.Holds t) (n : Nat)
    (hpos : ρ.sites.covers pos) :
    Ends ρ s (payloadShape y payload n pos) (Store.Parts ρ.sites) := by
  unfold payloadShape
  split
  · exact .pure h (by simp [Store.Parts])
  · exact .pure h (allClean_mk' hpos _ rfl)
  · exact .pure h (allClean_mk' hpos _ rfl)
  · exact .pure h fun t ht => mem_singleton.mp ht ▸ hp _ rfl
  · refine (tupleShape_ends h (hp _ rfl) _).bind fun out s' h' _ hout => ?_
    cases out with
    | ok elems => exact .pure h' hout
    | error d => exact .pure h' (allClean_mk' hpos _ rfl)

theorem enumShape_ends (y : Symbol) {enum : Ty} (ht : s.Holds t) (henum : s.Holds enum)
    (hpayload : ∀ u, payload = some u → s.Holds u) (n : Nat) (hpos : ρ.sites.covers pos) :
    Ends ρ s (do
      match ← expect t enum pos "pattern" with
      | [] => payloadShape y payload n pos
      | faults => return .error faults) (Store.Parts ρ.sites) := by
  refine (expect_ends h ht henum hpos _).bind fun faults s' h' he hfaults => ?_
  split
  · exact payloadShape_ends h' y (fun u heq => he.holds (hpayload u heq)) n hpos
  · exact .pure h' hfaults

/-- A pattern of a variant: its path is resolved, and the payload is a copy for this pattern. -/
theorem variantShape_ends (path : List String) (n : Nat) (hpos : ρ.sites.covers pos)
    (ht : s.Holds t) : Ends ρ s (variantShape path n pos t) (Store.Parts ρ.sites) := by
  unfold variantShape
  refine (resolvePath_ends h path hpos).bind fun found s' h' he hfound => ?_
  cases found with
  | error d => exact .pure h' (allClean_one hfound)
  | ok id =>
    refine (useSymbol_ends h' hfound).bind fun y s'' h'' he' hy => ?_
    have ht := he'.holds (he.holds ht)
    split
    · exact .pure h'' (allClean_mk' hpos _ rfl)
    split
    · exact .pure h'' (allClean_mk' hpos _ rfl)
    next type htype =>
      have htype := hy.admits.holds type htype
      split
      next enum payload heq =>
        split at heq
        · obtain ⟨rfl, rfl⟩ := Prod.mk.inj heq
          refine enumShape_ends h'' y ht (h''.registry.holds_part htype (by simp [Ty.parts]))
            (fun u heq => ?_) n hpos
          exact some.inj heq ▸ h''.registry.holds_part htype (by simp [Ty.parts])
        · obtain ⟨rfl, rfl⟩ := Prod.mk.inj heq
          exact enumShape_ends h'' y ht (h''.registry.holds_part htype (by simp [Ty.parts]))
            (fun u heq => by cases heq) n hpos
        · obtain ⟨rfl, rfl⟩ := Prod.mk.inj heq
          exact enumShape_ends h'' y ht htype (fun u heq => by cases heq) n hpos

theorem holds_headD {types : List Ty} (ht : ∀ t ∈ types, s.Holds t) :
    s.Holds (types.headD .invalid) := by
  cases types with
  | nil => exact h.registry.basic .invalid
  | cons t _ => exact ht t mem_cons_self

end

/-- A fault without a place gets that of the pattern that it was met in. -/
theorem clean_placed {d : Diagnostic} (h : d.code.aboutUnit = true) (hd : d.pos = .unknown)
    (hpos : A.covers pos) :
    (d.placed pos).Clean A := by
  refine Diagnostic.clean_of_code h ?_
  rw [Diagnostic.placed, hd]
  exact hpos

mutual

/-- Patterns declare their variables as they are gone through, by induction on the pattern. -/
theorem pattern_ends (p : Pattern) (hat : p.Placed ρ.sites) {s : Store} (h : s.Good) {t : Ty}
    (ht : s.Holds t) : Ends ρ s (pattern p t) fun _ ds => AllClean ρ.sites ds := by
  match p with
  | .wildcard _ =>
    rw [pattern]
    exact .pure h allClean_nil
  | .literal v pos =>
    rw [pattern]
    refine expect_ends h ht ?_ hat _
    cases v <;> exact h.registry.basic _
  | .binding name mutable pos =>
    rw [pattern]
    refine (resolve_ends h ht).bind fun t s' h' _ ht => ?_
    exact declareLocal_ends h' name rfl hat ht mutable true
  | .tuple elems pos =>
    rw [pattern]
    refine (tupleShape_ends h ht _).bind fun out s' h' _ hout => ?_
    cases out with
    | ok types => exact patterns_ends elems hat.2 h' hout
    | error d => exact .pure h' (allClean_one (clean_placed hout.1 hout.2 hat.1))
  | .variant path elems pos =>
    rw [pattern]
    refine (variantShape_ends h path _ hat.1 ht).bind fun out s' h' _ hout => ?_
    cases out with
    | ok types => exact patterns_ends elems hat.2 h' hout
    | error faults =>
      -- the variables inside are declared all the same, with no types to go by
      have hothers : Ends ρ s' (patterns elems []) fun _ ds => AllClean ρ.sites ds :=
        patterns_ends elems hat.2 h' (by simp)
      exact hothers.bind fun others s'' h'' _ hothers =>
        .pure h'' (AllClean.append hout hothers)

theorem patterns_ends (ps : List Pattern) (hat : Pattern.AllPlaced ρ.sites ps)
    {s : Store} (h : s.Good) {types : List Ty} (ht : ∀ t ∈ types, s.Holds t) :
    Ends ρ s (patterns ps types) fun _ ds => AllClean ρ.sites ds := by
  match ps with
  | [] =>
    rw [patterns]
    exact .pure h allClean_nil
  | p :: ps =>
    rw [patterns]
    refine (pattern_ends p hat.1 h (holds_headD h ht)).bind fun faults s' h' he hfaults => ?_
    have htail : ∀ t ∈ types.tail, s'.Holds t := fun t hmem =>
      he.holds (ht t (mem_of_mem_tail hmem))
    refine (patterns_ends ps hat.2 h' htail).bind fun others s'' h'' _ hothers => ?_
    exact .pure h'' (hfaults.append hothers)

end

/-! ## Values of variables -/

section

variable (h : s.Good) {value : Option Expr} {label : Label} {init : Typed}
include h

theorem evaluateBinding_ends (he : e.Fits) (hat : e.Placed ρ.sites)
    (hlends : lends e = true → ρ.makes s.table.current) :
    Ends ρ s (evaluate fun here => bindingValue here e) (Store.Types ρ.sites) :=
  evaluate_ends h fun _ => bindingValue_ends (withTemporary_good h) he hat hlends

theorem evaluateRead_ends (he : e.Fits) (hat : e.Placed ρ.sites) :
    Ends ρ s (evaluateRead e) (Store.Types ρ.sites) :=
  evaluate_ends h fun here => (checks_during ρ here he hat).operand.read (withTemporary_good h)

theorem evaluateTake_ends (he : e.Fits) (hat : e.Placed ρ.sites) :
    Ends ρ s (evaluateTake e) (Store.Types ρ.sites) :=
  evaluate_ends h fun here => (checks_during ρ here he hat).operand.take (withTemporary_good h)

/-- Without a declared type the value has to tell. -/
theorem inferred_ends (hinit : s.Types ρ.sites init) :
    Ends ρ s (do
      match init.faults with
      | [] => return { type := ← resolve init.type }
      | faults => return .broken faults) (Store.Types ρ.sites) := by
  refine noFaults_ends h hinit.clean ?_
  exact (resolve_ends h hinit.holds).bind fun t s' h' _ ht => .pure h' (.ok ht)

/-- With a declared type the value is checked against that. -/
theorem declared_ends (ht : s.Holds type) (hinit : s.Types ρ.sites init) (hpos : ρ.sites.covers pos)
    (what : String) :
    Ends ρ s (do
      if !init.faults.isEmpty then return { type, faults := init.faults }
      match ← expect type init.type pos what with
      | [] => return { type := ← resolve type }
      | faults => return { type, faults }) (Store.Types ρ.sites) := by
  split
  · exact .pure h ⟨ht, hinit.clean⟩
  refine (expect_ends h ht hinit.holds hpos what).bind fun faults s' h' he hfaults => ?_
  have ht := he.holds ht
  split
  · exact (resolve_ends h' ht).bind fun t s'' h'' _ ht => .pure h'' (.ok ht)
  · exact .pure h' ⟨ht, hfaults⟩

theorem inferredType_ends (he : e.Fits) (hat : e.Placed ρ.sites)
    (hlends : lends e = true → ρ.makes s.table.current) :
    Ends ρ s (do
      let init ← evaluate fun here => bindingValue here e
      match init.faults with
      | [] => return { type := ← resolve init.type }
      | faults => return .broken faults) (Store.Types ρ.sites) :=
  (evaluateBinding_ends h he hat hlends).bind fun _ _ h' _ hinit => inferred_ends h' hinit

/-- A variable with an annotation has the type of the annotation, whatever its value is. -/
theorem declaredType_ends (label : Label) {d : Typed} (hd : s.Types ρ.sites d) (he : e.Fits)
    (hat : e.Placed ρ.sites) (hlends : lends e = true → ρ.makes s.table.current) :
    Ends ρ s (do
      if !d.faults.isEmpty then return d
      let init ← evaluate fun here => bindingValue here e
      if !init.faults.isEmpty then return { type := d.type, faults := init.faults }
      match ← expect d.type init.type e.pos ("declaration of " ++ Text.quoted label.text) with
      | [] => return { type := ← resolve d.type }
      | faults => return { type := d.type, faults }) (Store.Types ρ.sites) := by
  split
  · exact .pure h hd
  exact (evaluateBinding_ends h he hat hlends).bind
    fun _ _ h' he' hinit => declared_ends h' (he'.holds hd.holds) hinit hat.at_pos _

/-- The type of a variable is that of its annotation or else of its value; with neither of them it
is not known. -/
theorem variableType_ends (hlabel : ρ.sites.covers label.pos) {type : Option TypeExpr}
    (htype : ∀ t ∈ type, t.Placed ρ.sites) (hv : ∀ e ∈ value, e.Fits)
    (hat : ∀ e ∈ value, e.Placed ρ.sites)
    (hlends : value.any lends = true → ρ.makes s.table.current) :
    Ends ρ s (variableType label type value) (Store.Types ρ.sites) := by
  unfold variableType
  cases type with
  | none =>
    cases value with
    | none => exact .pure h (.failed h hlabel _ rfl)
    | some e => exact inferredType_ends h (hv e rfl) (hat e rfl) hlends
  | some t =>
    refine (convertTyped_ends h (htype t rfl)).bind fun d s' h' he hd => ?_
    cases value with
    | none => exact .pure h' hd
    | some e =>
      rw [← he.current] at hlends
      exact declaredType_ends h' label hd (hv e rfl) (hat e rfl) hlends

theorem constantType_ends (hlabel : ρ.sites.covers label.pos) {type : Option TypeExpr}
    (htype : ∀ t ∈ type, t.Placed ρ.sites) (hv : ∀ e ∈ value, e.Fits)
    (hat : ∀ e ∈ value, e.Placed ρ.sites)
    (hlends : value.any lends = true → ρ.makes s.table.current) :
    Ends ρ s (constantType label type value) (Store.Types ρ.sites) := by
  unfold constantType
  split
  · exact .pure h (.failed h hlabel _ rfl)
  · exact variableType_ends h hlabel htype hv hat hlends

/-! ## Conditions, loops and jumps -/

theorem condition_ends (he : e.Fits) (hat : e.Placed ρ.sites) (what : String) :
    Ends ρ s (condition e what) fun _ ds => AllClean ρ.sites ds := by
  unfold condition
  refine (evaluateRead_ends h he hat).bind fun t s' h' _ ht => ?_
  split
  · exact expect_ends h' (h'.registry.basic .bool) ht.holds hat.at_pos _
  · exact .pure h' ht.clean

/-- Ranges and arrays have elements; that of an open type is left open. -/
theorem elementOf_ends (ht : s.Holds t) (hpos : ρ.sites.covers pos) :
    Ends ρ s (elementOf t pos) (Store.Types ρ.sites) := by
  unfold elementOf
  refine (behindRefs_ends h ht).bind fun u s' h' he hu => ?_
  have hnot : Ends ρ s' (do
      let t ← resolve t
      return .failed .typeMismatch pos s!"cannot iterate over a value of type {t.text}")
      (Store.Types ρ.sites) :=
    (resolve_ends h' (he.holds ht)).bind fun _ s'' h'' _ _ => .pure h'' (.failed h'' hpos _ rfl)
  split
  · exact .pure h' (.ok (h'.registry.holds_part hu (by simp [Ty.parts])))
  · exact .pure h' (.ok (h'.registry.holds_part hu (by simp [Ty.parts])))
  · split
    · exact hnot
    · exact (fresh_ends h').bind fun t s'' h'' _ ht => .pure h'' (.ok ht)
  · exact .pure h' (.ok (h'.registry.basic .invalid))
  · exact hnot

theorem loopElement_ends {iter : Expr} (he : iter.Fits) (hat : iter.Placed ρ.sites) :
    Ends ρ s (loopElement iter) (Store.Types ρ.sites) := by
  unfold loopElement
  refine (evaluateRead_ends h he hat).bind fun t s' h' _ ht => ?_
  exact noFaults_ends h' ht.clean (elementOf_ends h' ht.holds hat.at_pos)

omit h in
/-- What is said about a statement in the wrong place is not what a failed change of scope is
reported with. -/
theorem clean_misplaced (hpos : A.covers pos) {message : String}
    (hsc : message.toList.take 2 ≠ ['s', 'c']) (hca : message.toList.take 2 ≠ ['c', 'a']) :
    (Diagnostic.mk' .invalidScope pos message).Clean A :=
  Diagnostic.clean_of_message (fun h => by cases h) hsc hca hpos

/-- The value of a return is compared with the result of the function. -/
theorem returnValue_ends {result : Option Ty}
    (hr : ∀ t ∈ result, s.Holds t) (hpos : ρ.sites.covers pos)
    (hv : ∀ e ∈ value, e.Fits) (hat : ∀ e ∈ value, e.Placed ρ.sites) :
    Ends ρ s (returnValue result pos value) fun _ ds => AllClean ρ.sites ds := by
  have hplace : (Diagnostic.mk' .invalidScope pos "return outside of a function").Clean ρ.sites :=
    clean_misplaced hpos (by decide) (by decide)
  unfold returnValue
  split
  · exact .pure h (allClean_one hplace)
  next e =>
    refine (evaluateTake_ends h (hv e rfl) (hat e rfl)).bind fun t s' h' _ ht => ?_
    exact .pure h' ((allClean_one hplace).append ht.clean)
  · next want => exact expect_ends h (hr want rfl) (h.registry.basic .unit) hpos _
  next want e =>
    refine (evaluateTake_ends h (hv e rfl) (hat e rfl)).bind fun t s' h' he ht => ?_
    split
    · exact expect_ends h' (he.holds (hr want rfl)) ht.holds (hat e rfl).at_pos _
    · exact .pure h' ht.clean

theorem insideLoop_ends {word : String} (hw : word = "break" ∨ word = "continue")
    (hpos : ρ.sites.covers pos) : Ends ρ s (insideLoop word pos) fun _ ds =>
      AllClean ρ.sites ds := by
  unfold insideLoop
  refine .get ?_
  split
  · exact .pure h allClean_nil
  · refine .pure h (allClean_one ?_)
    rcases hw with rfl | rfl
    · exact clean_misplaced hpos (by decide) (by decide)
    · exact clean_misplaced hpos (by decide) (by decide)

end

end

end Checking

end UnitCheck
