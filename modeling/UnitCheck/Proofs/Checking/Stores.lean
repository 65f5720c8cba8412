import Mathlib.Logic.Function.Basic
import UnitCheck.Proofs.Checking.Orderly
import UnitCheck.Proofs.Ownership.Keeping
import UnitCheck.Proofs.Typing.Reachability

/-!
# Stores that hang together

A check works on a registry, a table and a ledger at once. `Store.Good` is what they have to agree
on, and the relations say how far a store may have come.

* `Store.Reaches P` — everything is kept, the current scope is the same, and records that are new
  were made under scopes that satisfy `P`.
* `Store.Keeps P` — what is known of a variable is not undone, and unless the variable is moved its
  records under other scopes than those that satisfy `P` are still there.
* `Store.Evaluates ρ` — the check of an expression: records are made and released only as the rights
  `ρ` allow, an orderly store is kept orderly, and what has happened to variables is on the trail,
  step by step, each access being one that the variable's status allowed (`Trace`).
-/

namespace UnitCheck

open List Option Ledger

variable {id scope : Int} {s : Store} {P Q : Int → Prop} {r : Registry} {y y' : Symbol} {t : Table}
  {i : Nat}
  {l : Ledger}

/-- The type is registered in the store. -/
abbrev Store.Holds (s : Store) (t : Ty) : Prop :=
  s.registry.Holds t

/-- The type and the type parameters of a symbol are registered, and the type of a structure, class
or enumeration is named. -/
structure Registry.Admits (r : Registry) (y : Symbol) : Prop where
  holds : ∀ t, y.type = some t → r.Holds t
  named : y.kind.isNominal = true → ∀ t, y.type = some t → ∃ name args, t = .named name args
  params : ∀ v ∈ y.generics, r.Holds (.var v)

theorem Registry.Admits.mono {r' : Registry} (h : r.Admits y) (he : r.Extends r') : r'.Admits y :=
  ⟨fun t ht => he.holds (h.holds t ht), h.named, fun v hv => he.holds (h.params v hv)⟩

/-- Another symbol of the same kind with the same type and type parameters. -/
theorem Registry.Admits.of_eq (h : r.Admits y) (hk : y'.kind = y.kind) (ht : y'.type = y.type)
    (hg : y'.generics = y.generics) : r.Admits y' := by
  refine ⟨?_, ?_, ?_⟩
  · rw [ht]
    exact h.holds
  · rw [hk, ht]
    exact h.named
  · rw [hg]
    exact h.params

/-- A symbol that need not have a named type gets another one. -/
theorem Registry.Admits.retyped (h : r.Admits y) (hk : y'.kind.isNominal = false)
    (ht : ∀ t, y'.type = some t → r.Holds t) (hg : y'.generics = y.generics) : r.Admits y' := by
  refine ⟨ht, fun hnominal => ?_, ?_⟩
  · rw [hk] at hnominal
    cases hnominal
  · rw [hg]
    exact h.params

theorem typed_updateSymbol {id : Nat} {f : Symbol → Symbol}
    (htyped : ∀ {i : Nat} {y : Symbol}, t.symbols[i]? = some y → r.Admits y)
    (hf : ∀ y, t.symbols[id]? = some y → r.Admits (f y))
    (hy : (t.updateSymbol id f).symbols[i]? = some y) :
    r.Admits y := by
  rw [Table.getElem?_updateSymbol] at hy
  obtain ⟨x, hx, rfl⟩ := map_eq_some_iff.mp hy
  split
  · next hid => exact hf x (hid ▸ hx)
  · exact htyped hx

theorem typed_markUsed (id : Nat)
    (htyped : ∀ {i : Nat} {y : Symbol}, t.symbols[i]? = some y → r.Admits y)
    (hy : (t.markUsed id).symbols[i]? = some y) : r.Admits y := by
  refine typed_updateSymbol htyped ?_ hy
  exact fun x hx => (htyped hx).of_eq rfl rfl rfl

/-! ## What has happened to variables -/

/-- What is known of each variable. -/
def Ledger.status (l : Ledger) (i : Nat) : Option Status := (l.get? i).map Holding.status

/-- The statuses after events, latest first, that were allowed one after the other. Only variables
that satisfy `V` are accessed, only new ones are declared, and those that satisfy `F` are written
only before they have a value. -/
inductive Trace (V F : Nat → Prop) (σ : Nat → Option Status) :
    List VarEvent → (Nat → Option Status) → Prop where
  | nil : Trace V F σ [] σ
  | accessed {evs : List VarEvent} {σ' : Nat → Option Status} {i : Nat} {st : Status}
      {kind : AccessKind} (before : Trace V F σ evs σ') (seen : V i) (known : σ' i = some st)
      (allowed : st.Allows kind) (first : kind = .write → F i → st.initialized = false) :
      Trace V F σ (.accessed i kind :: evs) (Function.update σ' i (some (st.after kind)))
  | declared {evs : List VarEvent} {σ' : Nat → Option Status} {i : Nat} (initialized : Bool)
      (before : Trace V F σ evs σ') (new : σ' i = none) :
      Trace V F σ (.declared i initialized :: evs)
      (Function.update σ' i (some ⟨initialized, false⟩))

section

variable {V W F G : Nat → Prop} {σ σ' σ'' : Nat → Option Status} {evs evs' : List VarEvent}

theorem Trace.mono (hvw : ∀ i, V i → W i) (hgf : ∀ i, G i → F i) (h : Trace V F σ evs σ') :
    Trace W G σ evs σ' := by
  induction h with
  | nil => exact .nil
  | accessed _ seen known allowed first ih =>
    exact .accessed ih (hvw _ seen) known allowed fun hk hg => first hk (hgf _ hg)
  | declared initialized _ new ih => exact .declared initialized ih new

theorem Trace.trans (h : Trace V F σ evs σ') (h' : Trace V F σ' evs' σ'') :
    Trace V F σ (evs' ++ evs) σ'' := by
  induction h' with
  | nil => exact h
  | accessed _ seen known allowed first ih => exact .accessed ih seen known allowed first
  | declared initialized _ new ih => exact .declared initialized ih new

/-- Nothing is forgotten. -/
theorem Trace.tracked (h : Trace V F σ evs σ') (hi : σ i ≠ none) : σ' i ≠ none := by
  induction h with
  | nil => exact hi
  | @accessed _ _ j _ _ _ _ _ _ _ ih =>
    by_cases hj : i = j
    · simp [hj]
    · rwa [Function.update_of_ne hj]
  | @declared _ _ j _ _ _ ih =>
    by_cases hj : i = j
    · simp [hj]
    · rwa [Function.update_of_ne hj]

/-- A variable that is declared on the way was not known before and is known from then on. -/
theorem Trace.declared_new (h : Trace V F σ evs σ') {initialized : Bool}
    (hi : .declared i initialized ∈ evs) : σ i = none ∧ σ' i ≠ none := by
  induction h with
  | nil => cases hi
  | @accessed evs _ j _ _ before _ _ _ _ ih =>
    obtain ⟨hold, hnew⟩ := ih (by simpa using hi)
    refine ⟨hold, ?_⟩
    by_cases hj : i = j
    · simp [hj]
    · rwa [Function.update_of_ne hj]
  | @declared evs _ j init before new ih =>
    rcases mem_cons.mp hi with heq | hmem
    · obtain ⟨rfl, rfl⟩ := VarEvent.declared.inj heq
      refine ⟨?_, by simp⟩
      by_contra hold
      exact before.tracked hold new
    · obtain ⟨hold, hnew⟩ := ih hmem
      refine ⟨hold, ?_⟩
      by_cases hj : i = j
      · simp [hj]
      · rwa [Function.update_of_ne hj]

end

theorem Ledger.status_put (l : Ledger) (i : Nat) (h : Holding) :
    (l.put i h).status = Function.update l.status i (some h.status) := by
  funext j
  rw [Function.update_apply, status, get?_put]
  by_cases hj : j = i
  · rw [if_pos hj, if_pos (by omega)]
    rfl
  · rw [if_neg hj, if_neg (by omega)]
    rfl

theorem Ledger.status_release (l : Ledger) (scope : Int) : (l.release scope).status = l.status := by
  funext j
  rw [status, status, get?_release, Option.map_map]
  rfl

theorem Ledger.status_eq_none (h : l.isTracked i = false) : l.status i = none := by
  rw [isTracked, isSome_eq_false_iff, isNone_iff_eq_none] at h
  rw [status, h]
  rfl

/-- What a check may do: make records under the scopes that satisfy `makes`, release those under the
scopes that satisfy `drops`, and report and declare at the sites. -/
structure Rights where
  makes : Int → Prop
  drops : Int → Prop
  sites : Sites

/-- To make and release records under the same scopes. -/
abbrev Rights.over (A : Sites) (P : Int → Prop) : Rights := ⟨P, P, A⟩

/-- The rights of a statement whose own scope is `here`. -/
abbrev Rights.during (ρ : Rights) (here : Int) : Rights where
  makes scope := scope = here ∨ ρ.makes scope
  drops scope := scope = here ∨ ρ.drops scope
  sites := ρ.sites

namespace Store

variable {ρ : Rights} {a : Access}

/-! ## Good stores -/

structure Good (s : Store) : Prop where
  registry : s.registry.Consistent
  table : s.table.Sound
  typed : ∀ {i : Nat} {y : Symbol}, s.table.symbols[i]? = some y → s.registry.Admits y
  ledger : s.ledger.Sound
  spent : s.ledger.Spent
  temporary_lt : s.ledger.nextTemporary < -1
  tracked_lt : ∀ {id : Int}, s.ledger.isTracked id = true → ∃ i : Nat, id = i ∧
    i < s.table.symbols.size
  nominal_lt : ∀ e ∈ s.nominal, e.2 < s.table.symbols.size

theorem good_empty : Good {} where
  registry := Registry.consistent_empty 0
  table := Table.sound_empty
  typed h := by simp at h
  ledger := sound_empty
  spent := spent_empty
  temporary_lt := by decide
  tracked_lt h := by cases h
  nominal_lt _ h := by cases h

/-- Only the registry has changed. -/
theorem Good.withRegistry (h : s.Good) (hr : s.registry.Evolves r) :
    { s with registry := r }.Good :=
  { h with registry := hr.consistent, typed := fun hy => (h.typed hy).mono hr.extends_ }

theorem Good.withTable (h : s.Good) (ht : t.Sound) (hg : s.table.Grows t)
    (htyped : ∀ {i : Nat} {y : Symbol}, t.symbols[i]? = some y → s.registry.Admits y) :
    { s with table := t }.Good :=
  { h with
    table := ht
    typed := htyped
    tracked_lt := fun hid => by
      obtain ⟨i, rfl, hi⟩ := h.tracked_lt hid
      exact ⟨i, rfl, hi.trans_le hg.symbols_le⟩
    nominal_lt := fun e he => (h.nominal_lt e he).trans_le hg.symbols_le }

theorem Good.withLedger (h : s.Good) {trail : List VarEvent} (hl : l.Sound) (hspent : l.Spent)
    (htemp : l.nextTemporary < -1)
    (htracked : ∀ {id : Int}, l.isTracked id = true → ∃ i : Nat, id = i ∧
      i < s.table.symbols.size) :
    { s with ledger := l, trail }.Good :=
  { h with ledger := hl, spent := hspent, temporary_lt := htemp, tracked_lt := htracked }

theorem Good.isTracked_size (h : s.Good) : s.ledger.isTracked s.table.symbols.size = false := by
  rw [← Bool.not_eq_true]
  intro ht
  obtain ⟨i, heq, hlt⟩ := h.tracked_lt ht
  omega

/-! ## Progress -/

/-- The symbol has been declared as a variable since. -/
def Declared (s s' : Store) (id : Int) : Prop :=
  ∃ evs, s'.trail = evs ++ s.trail ∧ ∃ i initialized, id = (i : Nat) ∧ .declared i initialized ∈ evs

structure Reaches (P : Int → Prop) (s s' : Store) : Prop where
  registry : s.registry.Extends s'.registry
  table : s.table.Grows s'.table
  current : s'.table.current = s.table.current
  records : Ledger.Under P s.ledger s'.ledger
  /-- A variable is known under the same name, unless its symbol is declared as another one. -/
  holdings : ∀ {id : Int} {h : Holding}, s.ledger.get? id = some h →
    ∃ h', s'.ledger.get? id = some h' ∧ (¬ s.Declared s' id → h'.label = h.label)
  /-- A variable that is new belongs to the current scope or one below it. -/
  fresh : ∀ {i : Nat}, s'.ledger.isTracked i = true → s.ledger.isTracked i = true ∨
    ∃ y, s'.table.symbols[i]? = some y ∧ s'.table.Inside y.scope s.table.current
  temporary_le : s'.ledger.nextTemporary ≤ s.ledger.nextTemporary
  trail : s.trail <:+ s'.trail
  /-- So does a variable that has been declared. -/
  declared : ∀ {i : Nat}, s.Declared s' i →
    ∃ y, s'.table.symbols[i]? = some y ∧ s'.table.Inside y.scope s.table.current

section

variable {s' s'' : Store}

theorem not_declared_of_trail (h : s'.trail = s.trail) : ¬ s.Declared s' id := by
  rintro ⟨evs, htrail, i, initialized, -, hmem⟩
  rw [h, self_eq_append_left] at htrail
  rw [htrail] at hmem
  cases hmem

/-- What is declared on the way is declared in its first or its second part. -/
theorem Declared.or (h : s.Declared s'' id) (ht : s.trail <:+ s'.trail)
    (ht' : s'.trail <:+ s''.trail) :
    s.Declared s' id ∨ s'.Declared s'' id := by
  obtain ⟨evs, htrail, i, initialized, hid, hmem⟩ := h
  obtain ⟨evs₁, htrail₁⟩ := ht
  obtain ⟨evs₂, htrail₂⟩ := ht'
  have heq : evs = evs₂ ++ evs₁ := by
    rw [← htrail₂, ← htrail₁, ← append_assoc] at htrail
    exact (append_cancel_right htrail).symm
  rw [heq] at hmem
  rcases mem_append.mp hmem with hmem | hmem
  · exact .inr ⟨evs₂, htrail₂.symm, i, initialized, hid, hmem⟩
  · exact .inl ⟨evs₁, htrail₁.symm, i, initialized, hid, hmem⟩

theorem Declared.left (h : s.Declared s' id) (ht' : s'.trail <:+ s''.trail) :
    s.Declared s'' id := by
  obtain ⟨evs, htrail, i, initialized, hid, hmem⟩ := h
  obtain ⟨evs', htrail'⟩ := ht'
  refine ⟨evs' ++ evs, ?_, i, initialized, hid, mem_append_right _ hmem⟩
  rw [← htrail', htrail, append_assoc]

theorem Declared.right (h : s'.Declared s'' id) (ht : s.trail <:+ s'.trail) :
    s.Declared s'' id := by
  obtain ⟨evs', htrail', i, initialized, hid, hmem⟩ := h
  obtain ⟨evs, htrail⟩ := ht
  refine ⟨evs' ++ evs, ?_, i, initialized, hid, mem_append_left _ hmem⟩
  rw [htrail', ← htrail, append_assoc]

theorem Reaches.refl (s : Store) : Reaches P s s where
  registry := .refl _
  table := .refl _
  current := rfl
  records := .refl _
  holdings h := ⟨_, h, fun _ => rfl⟩
  fresh h := .inl h
  temporary_le := Int.le_refl _
  trail := suffix_refl _
  declared h := absurd h (not_declared_of_trail rfl)

theorem Reaches.tracked (h : Reaches P s s') (hid : s.ledger.isTracked id = true) :
    s'.ledger.isTracked id = true := by
  obtain ⟨k, hk⟩ := isTracked_iff.mp hid
  obtain ⟨k', hk', -⟩ := h.holdings hk
  exact isTracked_iff.mpr ⟨k', hk'⟩

/-- One step after another. Records made in the first one may be gone after the second. -/
theorem Reaches.trans (h : Reaches P s s') (h' : Reaches P s' s'') : Reaches P s s'' where
  registry := h.registry.trans h'.registry
  table := h.table.trans h'.table
  current := h'.current.trans h.current
  records := h.records.trans h'.records
  holdings := by
    intro id k hk
    obtain ⟨k', hk', hlabel⟩ := h.holdings hk
    obtain ⟨k'', hk'', hlabel'⟩ := h'.holdings hk'
    refine ⟨k'', hk'', fun hno => ?_⟩
    rw [hlabel' fun hd => hno (hd.right h.trail), hlabel fun hd => hno (hd.left h'.trail)]
  fresh := by
    intro i hi
    rcases h'.fresh hi with hi | ⟨y, hy, hin⟩
    · exact (h.fresh hi).imp_right h'.table.symbol_inside
    · rw [h.current] at hin
      exact .inr ⟨y, hy, hin⟩
  temporary_le := Int.le_trans h'.temporary_le h.temporary_le
  trail := h.trail.trans h'.trail
  declared := by
    intro i hi
    rcases hi.or h.trail h'.trail with hi | hi
    · exact h'.table.symbol_inside (h.declared hi)
    · obtain ⟨y, hy, hin⟩ := h'.declared hi
      rw [h.current] at hin
      exact ⟨y, hy, hin⟩

theorem Reaches.mono (hpq : ∀ scope, P scope → Q scope) (h : Reaches P s s') : Reaches Q s s' :=
  { h with records := h.records.mono hpq }

/-- The symbol is not declared as another variable, if it has been one. -/
def Undeclared (s s' : Store) (id : Int) : Prop := s.ledger.isTracked id = true → ¬ s.Declared s' id

theorem undeclared_of_trail (h : s'.trail = s.trail) : s.Undeclared s' id :=
  fun _ => not_declared_of_trail h

theorem Undeclared.trans (h : s.Undeclared s' id) (h' : s'.Undeclared s'' id) (hr : Reaches P s s')
    (ht : s'.trail <:+ s''.trail) : s.Undeclared s'' id := by
  intro htracked hd
  rcases hd.or hr.trail ht with hd | hd
  · exact h htracked hd
  · exact h' (hr.tracked htracked) hd

theorem Reaches.holds (h : Reaches P s s') {t : Ty} (ht : s.Holds t) : s'.Holds t :=
  h.registry.holds ht

end

/-- Only the registry has changed. -/
theorem reaches_withRegistry (s : Store) (hr : s.registry.Extends r) :
    Reaches P s { s with registry := r } :=
  { Reaches.refl s with registry := hr }

theorem reaches_withTable (s : Store) (hg : s.table.Grows t) (hc : t.current = s.table.current) :
    Reaches P s { s with table := t } :=
  { Reaches.refl s with
    table := hg
    current := hc
    fresh := fun h => .inl h
    declared := fun h => absurd h (not_declared_of_trail rfl) }

/-- Only the ledger changes, and no variable is declared. -/
theorem reaches_withLedger (s : Store) (evs : List VarEvent) (hrecords : Ledger.Under P s.ledger l)
    (hl : s.ledger.Continues l) (hevs : ∀ i initialized, .declared i initialized ∉ evs) :
    Reaches P s { s with ledger := l, trail := evs ++ s.trail } where
  registry := .refl _
  table := .refl _
  current := rfl
  records := hrecords
  holdings hk := by
    obtain ⟨k', hk', hlabel⟩ := hl.get? hk
    exact ⟨k', hk', fun _ => hlabel⟩
  fresh hi := .inl ((hl.isTracked _).symm.trans hi)
  temporary_le := hl.temporary_le
  trail := suffix_append evs s.trail
  declared := by
    rintro i ⟨evs', htrail, j, initialized, -, hmem⟩
    rw [← append_cancel_right htrail] at hmem
    exact absurd hmem (hevs j initialized)

/-! ## What is kept -/

/-- A scope around the current one, or that of a statement that has begun. -/
def Alive (s : Store) (scope : Int) : Prop :=
  s.ledger.nextTemporary < scope ∧ ∀ n : Nat, scope = n → s.table.Inside s.table.current n

/-- All records were made under scopes that have not been left. -/
def Filed (s : Store) : Prop := ∀ (id : Int), ∀ a ∈ s.ledger.active id, s.Alive a.scope

structure Keeps (P : Int → Prop) (s s' : Store) : Prop where
  initialized : ∀ {id : Int} {h h' : Holding}, s.ledger.get? id = some h →
    s'.ledger.get? id = some h' →
    h.initialized = true → h'.initialized = true
  moved : ∀ {id : Int} {h h' : Holding}, ¬ s.Declared s' id → s.ledger.get? id = some h →
    s'.ledger.get? id = some h' → h.isMoved = true → h'.isMoved = true
  records : s.Filed → ∀ {id : Int} {h h' : Holding}, ¬ s.Declared s' id →
    s.ledger.get? id = some h →
    s'.ledger.get? id = some h' → h'.isMoved = false → (h.apart P).Sublist h'.active

section

variable {M : Int → Prop} {s' s'' : Store}

theorem Good.alive_current (h : s.Good) : s.Alive s.table.current := by
  have := h.temporary_lt
  refine ⟨by omega, fun n hn => ?_⟩
  obtain rfl : s.table.current = n := Int.ofNat.inj hn
  exact .refl

theorem Reaches.alive (h : Reaches P s s') (hs : s.Alive scope) : s'.Alive scope := by
  refine ⟨Int.lt_of_le_of_lt h.temporary_le hs.1, fun n hn => ?_⟩
  rw [h.current]
  exact h.table.inside (hs.2 n hn)

theorem Reaches.filed (h : Reaches P s s') (hP : ∀ scope, P scope → s.Alive scope) (hs : s.Filed) :
    s'.Filed := by
  intro id a ha
  rcases h.records.mem ha with hold | hnew
  · exact h.alive (hs id a hold)
  · exact h.alive (hP _ hnew)

theorem Keeps.refl (s : Store) : Keeps P s s where
  initialized h h' := by
    obtain rfl := mem_unique h h'
    exact id
  moved _ h h' := by
    obtain rfl := mem_unique h h'
    exact id
  records _ _ _ _ _ h h' _ := by
    obtain rfl := mem_unique h h'
    exact Holding.apart_sublist P _

/-- One step after another, if what they record is recorded under scopes that are alive. -/
theorem Keeps.trans (h : Keeps P s s') (h' : Keeps P s' s'') (hr : Reaches M s s')
    (hr' : Reaches M s' s'') (hM : ∀ scope, M scope → s.Alive scope) : Keeps P s s'' where
  initialized hk hk'' hi := by
    obtain ⟨k', hk', -⟩ := hr.holdings hk
    exact h'.initialized hk' hk'' (h.initialized hk hk' hi)
  moved hno hk hk'' hm := by
    obtain ⟨k', hk', -⟩ := hr.holdings hk
    exact h'.moved (fun hd => hno (hd.right hr.trail)) hk' hk''
      (h.moved (fun hd => hno (hd.left hr'.trail)) hk hk' hm)
  records hs id k k'' hno hk hk'' hm := by
    obtain ⟨k', hk', -⟩ := hr.holdings hk
    have hno' : ¬ s'.Declared s'' id := fun hd => hno (hd.right hr.trail)
    have hm' : k'.isMoved = false := by
      rw [← Bool.not_eq_true]
      intro hmoved
      exact Bool.false_ne_true (hm.symm.trans (h'.moved hno' hk' hk'' hmoved))
    exact Holding.apart_trans (h.records hs (fun hd => hno (hd.left hr'.trail)) hk hk' hm')
      (h'.records (hr.filed hM hs) hno' hk' hk'' hm)

theorem Keeps.mono (h : Keeps P s s') (hpq : ∀ scope, P scope → Q scope) : Keeps Q s s' :=
  { h with records :=
    fun hs _ k _ hno hk hk' hm => (k.apart_anti hpq).trans (h.records hs hno hk hk' hm) }

/-- Only holdings are looked at. -/
theorem Keeps.congr {t t' : Store} (h : Keeps P s s') (hl : t.ledger.holdings = s.ledger.holdings)
    (hl' : t'.ledger.holdings = s'.ledger.holdings) (ht : t.trail = s.trail)
    (ht' : t'.trail = s'.trail) (hf : t.Filed → s.Filed) : Keeps P t t' := by
  have hget : ∀ id, t.ledger.get? id = s.ledger.get? id := fun id => by rw [get?, hl]; rfl
  have hget' : ∀ id, t'.ledger.get? id = s'.ledger.get? id := fun id => by rw [get?, hl']; rfl
  have hdeclared : ∀ id, t.Declared t' id ↔ s.Declared s' id := fun id => by
    rw [Declared, Declared, ht, ht']
  constructor
  · intro id k k' hk hk'
    rw [hget] at hk
    rw [hget'] at hk'
    exact h.initialized hk hk'
  · intro id k k' hno hk hk'
    rw [hget] at hk
    rw [hget'] at hk'
    rw [hdeclared] at hno
    exact h.moved hno hk hk'
  · intro hs id k k' hno hk hk'
    rw [hget] at hk
    rw [hget'] at hk'
    rw [hdeclared] at hno
    exact h.records (hf hs) hno hk hk'

theorem keeps_of_ledger (hl : s'.ledger = s.ledger) (ht : s'.trail = s.trail) : Keeps P s s' :=
  (Keeps.refl s).congr rfl (by rw [hl]) rfl ht id

/-- Once the records under a scope have been released, none is missing that was made before it was
opened. -/
theorem Keeps.released (h : Keeps (fun x => x = scope ∨ P x) s s')
    (hnew : s.Filed → ∀ (id : Int), ∀ a ∈ s.ledger.active id, a.scope ≠ scope)
    (hl : s''.ledger = s'.ledger.release scope) (ht : s''.trail = s'.trail) : Keeps P s s'' := by
  have hget : ∀ {id : Int} {k'' : Holding}, s''.ledger.get? id = some k'' →
      ∃ k', s'.ledger.get? id = some k' ∧
      k'' = { k' with active := k'.active.filter (·.scope ≠ scope) } := by
    intro id k'' hk''
    rw [hl, get?_release] at hk''
    obtain ⟨k', hk', heq⟩ := map_eq_some_iff.mp hk''
    exact ⟨k', hk', heq.symm⟩
  have hdeclared : ∀ {id : Int}, ¬ s.Declared s'' id → ¬ s.Declared s' id := by
    intro id hno
    rwa [Declared, ht] at hno
  constructor
  · intro id k k'' hk hk''
    obtain ⟨k', hk', rfl⟩ := hget hk''
    have hkept := h.initialized hk hk'
    exact hkept
  · intro id k k'' hno hk hk''
    obtain ⟨k', hk', rfl⟩ := hget hk''
    have hkept := h.moved (hdeclared hno) hk hk'
    exact hkept
  · intro hs id k k'' hno hk hk'' hm
    obtain ⟨k', hk', rfl⟩ := hget hk''
    have hkept := h.records hs (hdeclared hno) hk hk' hm
    -- no record from before stands under the new scope, so none of them is released
    have hfree : ∀ a ∈ k.active, a.scope ≠ scope := by
      rw [← active_of_get? hk]
      exact hnew hs id
    rw [Holding.apart_or hfree] at hkept
    have hsame : (k.apart P).filter (·.scope ≠ scope) = k.apart P :=
      filter_eq_self.mpr fun a ha => decide_eq_true (hfree a (mem_of_mem_filter ha))
    rw [← hsame]
    exact hkept.filter _

end

/-! ## The check of an expression -/

/-- The variable may not be assigned to again. -/
def Fixed (s : Store) (i : Nat) : Prop := ∀ h, s.ledger.get? i = some h → h.mutable = false

structure Evaluates (ρ : Rights) (s s' : Store) : Prop extends Reaches ρ.makes s s' where
  events : ∃ evs, s'.trail = evs ++ s.trail ∧
    Trace (s'.table.SeesSymbol s'.table.current) s'.Fixed s.ledger.status evs s'.ledger.status
  keeps : (∀ scope, ρ.makes scope → s.Alive scope) → s.Keeps ρ.drops s'
  completes : s.Orderly ρ.sites → s.Completes ρ.sites s'

section

variable {ρ : Rights} {s' s'' : Store}

/-- The check of an expression declares no variable that is there already. -/
theorem Evaluates.not_declared (h : Evaluates ρ s s') {k : Holding}
    (hk : s.ledger.get? id = some k) :
    ¬ s.Declared s' id := by
  rintro ⟨evs, htrail, i, initialized, rfl, hmem⟩
  obtain ⟨evs', htrail', htrace⟩ := h.events
  rw [htrail', append_left_inj] at htrail
  subst htrail
  have hstatus : s.ledger.status i = some k.status := by
    rw [status, hk]
    rfl
  rw [(htrace.declared_new hmem).1] at hstatus
  cases hstatus

theorem Evaluates.fixed (h : Evaluates ρ s s') (hi : s'.Fixed i) : s.Fixed i := by
  intro k hk
  obtain ⟨k', hk', hlabel⟩ := h.holdings hk
  have hmutable : k'.mutable = k.mutable := congrArg Prod.snd (hlabel (h.not_declared hk))
  rw [← hmutable]
  exact hi k' hk'

theorem Evaluates.refl (ρ : Rights) (s : Store) : Evaluates ρ s s :=
  ⟨.refl s, ⟨[], rfl, .nil⟩, fun _ => .refl s, .refl⟩

theorem Evaluates.trans (h : Evaluates ρ s s') (h' : Evaluates ρ s' s'') : Evaluates ρ s s'' := by
  refine ⟨h.toReaches.trans h'.toReaches, ?_, fun halive => ?_,
    fun ho => (h.completes ho).trans (h'.completes (h.completes ho).orderly)⟩
  · obtain ⟨evs, htrail, htrace⟩ := h.events
    obtain ⟨evs', htrail', htrace'⟩ := h'.events
    refine ⟨evs' ++ evs, by rw [htrail', htrail, append_assoc], ?_⟩
    refine (htrace.mono (fun i hi => ?_) fun i => h'.fixed).trans htrace'
    rw [h'.current]
    exact h'.table.seesSymbol hi
  · have hk' := h'.keeps fun scope hs => h.alive (halive scope hs)
    exact (h.keeps halive).trans hk' h.toReaches h'.toReaches halive

end

/-- No variable is touched. -/
theorem Reaches.evaluates {s' : Store} (h : Reaches ρ.makes s s')
    (hl : s'.ledger.status = s.ledger.status) (ht : s'.trail = s.trail) (hk : s.Keeps ρ.drops s')
    (hc : s.Orderly ρ.sites → s.Completes ρ.sites s') : Evaluates ρ s s' := by
  refine ⟨h, ⟨[], ht, ?_⟩, fun _ => hk, hc⟩
  rw [hl]
  exact .nil

theorem evaluates_withRegistry (ρ : Rights) (s : Store) (hr : s.registry.Extends r) :
    Evaluates ρ s { s with registry := r } :=
  (reaches_withRegistry s hr).evaluates rfl rfl (keeps_of_ledger rfl rfl) fun h => h.aside rfl rfl

theorem evaluates_withTable (ρ : Rights) (s : Store) (hg : s.table.Grows t)
    (hcurrent : t.current = s.table.current)
    (hc : s.Orderly ρ.sites → s.Completes ρ.sites { s with table := t }) :
    Evaluates ρ s { s with table := t } :=
  (reaches_withTable s hg hcurrent).evaluates rfl rfl (keeps_of_ledger rfl rfl) hc

/-! ## Access -/

theorem Good.granted (h : s.Good) (hok : s.ledger.access id a = .ok l)
    (trail : List VarEvent) : { s with ledger := l, trail }.Good := by
  have hl := continues_access hok
  refine h.withLedger (h.ledger.access hok) (h.spent.access hok) ?_ ?_
  · exact Int.lt_of_le_of_lt hl.temporary_le h.temporary_lt
  · intro j hj
    exact h.tracked_lt ((hl.isTracked j).symm.trans hj)

/-- A granted access adds a record, or moves the variable. -/
theorem keeps_granted (hok : s.ledger.access id a = .ok l) (trail : List VarEvent) :
    s.Keeps P { s with ledger := l, trail } := by
  obtain ⟨k, k', hget, hacc, rfl⟩ := get?_of_access hok
  obtain ⟨-, hinit, hunmoved, hactive, -⟩ := Holding.access_keeps hacc
  -- the holdings of other symbols are the same
  have hcases : ∀ {j : Int} {h h' : Holding}, s.ledger.get? j = some h →
      (s.ledger.put id k').get? j = some h' → (h = k ∧ h' = k') ∨ h' = h := by
    intro j h h' hh hh'
    rw [get?_put] at hh'
    split at hh'
    next heq =>
      rw [heq, hget] at hh
      exact .inl ⟨(some.inj hh).symm, (some.inj hh').symm⟩
    · exact .inr (mem_unique hh' hh)
  constructor
  · intro j h h' hh hh' hi
    rcases hcases hh hh' with ⟨rfl, rfl⟩ | rfl
    · exact hinit hi
    · exact hi
  · intro j h h' _ hh hh' hm
    rcases hcases hh hh' with ⟨rfl, rfl⟩ | rfl
    · exact absurd (hunmoved.symm.trans hm) Bool.false_ne_true
    · exact hm
  · intro _ j h h' _ hh hh' hm
    rcases hcases hh hh' with ⟨rfl, rfl⟩ | rfl
    · rw [hactive hm]
      exact (Holding.apart_sublist P _).trans (sublist_append_left _ _)
    · exact Holding.apart_sublist P _

/-- An access that is granted, in a scope where records may be made. -/
theorem evaluates_granted (hok : s.ledger.access i a = .ok l)
    (hseen : s.table.SeesSymbol s.table.current i) (hscope : ρ.makes a.scope) :
    Evaluates ρ s { s with ledger := l, trail := .accessed i a.kind :: s.trail } := by
  obtain ⟨k, k', hget, hacc, heq⟩ := get?_of_access hok
  obtain ⟨hallows, hafter, -, -⟩ := Holding.access_status hacc
  obtain ⟨hlabel, -, -, -, hfirst⟩ := Holding.access_keeps hacc
  have hstatus : s.ledger.status i = some k.status := by
    rw [status, hget]
    rfl
  have hevs : ∀ j initialized, .declared j initialized ∉ [VarEvent.accessed i a.kind] := by simp
  have hfixed : Fixed { s with ledger := l, trail := .accessed i a.kind :: s.trail } i →
      k.mutable = false := by
    intro hf
    have hmutable : k'.mutable = k.mutable := congrArg Prod.snd hlabel
    rw [← hmutable]
    refine hf k' ?_
    rw [heq, get?_put, if_pos rfl]
  refine ⟨reaches_withLedger s _ (under_access hok hscope) (continues_access hok) hevs,
    ⟨[.accessed i a.kind], rfl, ?_⟩, fun _ => keeps_granted hok _, fun h => h.aside rfl rfl⟩
  rw [heq, status_put, hafter]
  rw [heq] at hfixed
  exact .accessed .nil hseen hstatus hallows fun hw hf => hfirst hw (hfixed hf)

/-! ## Records that are dropped -/

theorem Good.release (h : s.Good) (scope : Int) :
    { s with ledger := s.ledger.release scope }.Good := by
  refine h.withLedger (h.ledger.release scope) (h.spent.release scope) h.temporary_lt ?_
  exact fun hid => h.tracked_lt ((isTracked_release _ _ _).symm.trans hid)

theorem keeps_release (s : Store) (hscope : P scope) :
    s.Keeps P { s with ledger := s.ledger.release scope } := by
  have hcases : ∀ {j : Int} {h h' : Holding}, s.ledger.get? j = some h →
      (s.ledger.release scope).get? j = some h' →
        h' = { h with active := h.active.filter (·.scope ≠ scope) } := by
    intro j h h' hh hh'
    rw [get?_release, hh] at hh'
    exact (some.inj hh').symm
  constructor
  · intro j h h' hh hh' hi
    rw [hcases hh hh']
    exact hi
  · intro j h h' _ hh hh' hm
    rw [hcases hh hh']
    exact hm
  · intro _ j h h' _ hh hh' _
    rw [hcases hh hh']
    exact h.apart_release hscope

theorem evaluates_release (hscope : ρ.drops scope) (s : Store) :
    Evaluates ρ s { s with ledger := s.ledger.release scope } :=
  (reaches_withLedger s [] (under_release _ scope) (continues_release _ scope)
    (by simp)).evaluates (status_release _ _) rfl (keeps_release s hscope) fun h => h.aside rfl rfl

end Store

end UnitCheck
