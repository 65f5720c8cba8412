import UnitCheck.Proofs.Analysis.Passes

/-!
# The names of a variable

A variable can be named in several ways: by its own name, by a name that a use gave it, and by a
path through modules, with colons or with dots. `Denotes` says which symbol an expression stands
for, and `Uses` through how many uses that symbol leads to the variable.

* `Denotes.take_agrees` — where its value is consumed, each such expression does what is done with
  one symbol, and only a bare name moves it.
* `variable_consumed_by_its_names` — up to one use, a bare name moves the variable as its own name
  does, while a path only reads it; through more uses the variable is not accessed.
* `consumed_twice_unnoticed` — what may go wrong: a value that is consumed twice by a path, or
  through two uses, is not missed.
-/

namespace UnitCheck

open Checking

/-! ## Marks of use -/

variable {path : List String}

namespace Table

/-- Tables that differ in the marks of used symbols alone. -/
structure Remarked (t t' : Table) : Prop where
  scopes_eq : t'.scopes = t.scopes
  symbol_eq : ∀ id, ∃ used, t'.symbol id = { t.symbol id with used }

theorem remarked_markUsed (t : Table) (id : Nat) : t.Remarked (t.markUsed id) where
  scopes_eq := rfl
  symbol_eq i := by
    have hget := getElem?_updateSymbol t id (fun y => { y with used := true }) i
    simp only [symbol, markUsed, Array.getD_eq_getD_getElem?, hget]
    cases t.symbols[i]? with
    | none => exact ⟨false, rfl⟩
    | some y =>
      by_cases hi : id = i
      · exact ⟨true, by simp [hi]⟩
      · exact ⟨y.used, by simp [hi]⟩

theorem remarked_goto (t : Table) (c : Nat) : t.Remarked { t with current := c } :=
  ⟨rfl, fun id => ⟨(t.symbol id).used, rfl⟩⟩

namespace Remarked

variable {t t' : Table}

section

variable (h : t.Remarked t') {scope : Int}
include h

theorem target_eq (id : Nat) : ∃ used, t'.target id = { t.target id with used } := by
  obtain ⟨used, heq⟩ := h.symbol_eq id
  cases halias : (t.symbol id).aliasOf with
  | none => exact ⟨used, by simp only [target, heq, halias]⟩
  | some a =>
    obtain ⟨used', heq'⟩ := h.symbol_eq a
    exact ⟨used', by simp only [target, heq, halias, heq']⟩

theorem scope?_eq (id : Int) : t'.scope? id = t.scope? id := by
  rw [scope?, scope?, h.scopes_eq]

theorem enclosing_eq (scope : Int) : t'.enclosing scope = t.enclosing scope := by
  have hout : ∀ steps scope, t'.outward steps scope = t.outward steps scope := by
    intro steps
    induction steps with
    | zero => exact fun _ => rfl
    | succ steps ih =>
      intro scope
      simp only [outward, h.scope?_eq, ih]
  rw [enclosing, enclosing, h.scopes_eq, hout]

theorem lookupFrom_eq (scope : Int) (name : String) :
    t'.lookupFrom scope name = t.lookupFrom scope name := by
  rw [lookupFrom, lookupFrom, h.enclosing_eq]

theorem member?_eq (id : Nat) (name : String) :
    t'.member? (t'.symbol id) name = t.member? (t.symbol id) name := by
  obtain ⟨used, heq⟩ := h.symbol_eq id
  simp only [member?, lookupIn, h.scope?_eq, heq]

theorem reachable_eq (scope : Int) (c m : Nat) :
    t'.reachable scope (t'.symbol c) (t'.symbol m) = t.reachable scope (t.symbol c)
      (t.symbol m) := by
  obtain ⟨used, heq⟩ := h.symbol_eq c
  obtain ⟨used', heq'⟩ := h.symbol_eq m
  simp only [reachable, within, heq, heq', h.enclosing_eq]

/-- Marks on symbols do not change what the rest of a path stands for. -/
theorem resolveMembers_ok {rest : List String} {c id : Nat}
    (hok : t.resolveMembers scope path c rest = .ok id) :
    t'.resolveMembers scope path c rest = .ok id := by
  induction rest generalizing path c with
  | nil => exact hok
  | cons segment rest ih =>
    obtain ⟨used, heq⟩ := h.symbol_eq c
    have hkind : (t'.symbol c).kind = (t.symbol c).kind := by rw [heq]
    rw [resolveMembers] at hok ⊢
    rw [hkind, h.member?_eq]
    split at hok
    · cases hok
    next hcontainer =>
      rw [if_neg hcontainer]
      cases hm : t.member? (t.symbol c) segment with
      | none =>
        rw [hm] at hok
        cases hok
      | some m =>
        rw [hm] at hok
        dsimp only at hok ⊢
        rw [h.reachable_eq]
        split at hok
        next hreach =>
          rw [if_pos hreach]
          exact ih hok
        · cases hok

theorem resolveFrom_ok {id : Nat} (hok : t.resolveFrom scope path = .ok id) :
    t'.resolveFrom scope path = .ok id := by
  unfold resolveFrom at hok ⊢
  cases path with
  | nil => cases hok
  | cons first rest =>
    dsimp only at hok ⊢
    rw [h.lookupFrom_eq]
    cases hl : t.lookupFrom scope first with
    | error fault =>
      rw [hl] at hok
      cases hok
    | ok c =>
      rw [hl] at hok
      exact h.resolveMembers_ok hok

end

end Remarked

end Table

namespace Checking

/-! ## What is done with one symbol -/

/-- The type of a symbol as a value, once uses have been followed. -/
def valueFor (here : Int) (y : Symbol) (pos : Position) (take : Bool) : CheckM Typed := do
  if !y.kind.isValue then return .broken [notValue y pos]
  match y.type with
  | none => return .broken [typeUnknown y pos]
  | some type =>
    let kind : AccessKind := if take && !(← get).registry.isCopy type then .move else .read
    match ← access y kind here pos with
    | [] => return { type := ← onRegistry (Registry.instantiate type y.generics) }
    | faults => return .broken faults

/-- Two runs that come to the same: the type or the faults, and all of the store but its table. -/
structure Agrees (r r' : Typed × Store) : Prop where
  typed : r.1 = r'.1
  registry : r.2.registry = r'.2.registry
  ledger : r.2.ledger = r'.2.ledger
  trail : r.2.trail = r'.2.trail

namespace Agrees

variable {r r' r'' : Typed × Store}

theorem symm (h : Agrees r r') : Agrees r' r :=
  ⟨h.typed.symm, h.registry.symm, h.ledger.symm, h.trail.symm⟩

theorem trans (h : Agrees r r') (h' : Agrees r' r'') : Agrees r r'' :=
  ⟨h.typed.trans h'.typed, h.registry.trans h'.registry, h.ledger.trans h'.ledger,
    h.trail.trans h'.trail⟩

end Agrees

section

variable (s : Store) (here : Int) (pos : Position) (take : Bool)

/-- The table plays no part in it. -/
theorem valueFor_withTable (y : Symbol) (t : Table) :
    Agrees ((valueFor here y pos take).run { s with table := t })
      ((valueFor here y pos take).run s) := by
  unfold valueFor
  split
  · exact ⟨rfl, rfl, rfl, rfl⟩
  split
  · exact ⟨rfl, rfl, rfl, rfl⟩
  next type _ =>
    simp only [StateT.run_bind, StateT.run_get, pure_bind, access_run]
    cases s.ledger.isTracked y.id with
    | false => exact ⟨rfl, rfl, rfl, rfl⟩
    | true =>
      simp only [if_true]
      generalize (if take && !s.registry.isCopy type then AccessKind.move else .read) = kind
      cases s.ledger.access y.id { kind, scope := here, pos } with
      | ok ledger => exact ⟨rfl, rfl, rfl, rfl⟩
      | error fault => exact ⟨rfl, rfl, rfl, rfl⟩

theorem valueOf_agrees (id : Nat) : Agrees ((valueOf here id pos take).run s)
      ((valueFor here (s.table.target id) pos take).run s) := by
  obtain ⟨used, heq⟩ := (s.table.remarked_markUsed id).target_eq id
  have hrun : (valueOf here id pos take).run s =
      (valueFor here ((s.table.markUsed id).target id) pos take).run
        { s with table := s.table.markUsed id } := rfl
  rw [hrun, heq]
  exact valueFor_withTable s here pos take (s.table.target id) (s.table.markUsed id)

variable {s here pos take} {y : Symbol}

/-- Reading and taking are the same where the type is copied. -/
theorem valueFor_copied (hcopy : ∀ type ∈ y.type, s.registry.isCopy type = true) :
    (valueFor here y pos true).run s = (valueFor here y pos false).run s := by
  unfold valueFor
  split
  · rfl
  split
  · rfl
  next type htype =>
    simp only [StateT.run_bind, StateT.run_get, pure_bind]
    rw [hcopy type htype]
    rfl

/-- Variables other than the symbol's own are left alone. -/
theorem valueFor_get? {x : Nat} (hx : y.id ≠ x) :
    ((valueFor here y pos take).run s).2.ledger.get? x = s.ledger.get? x := by
  have hne : (x : Int) ≠ y.id := fun heq => hx (Int.ofNat.inj heq).symm
  unfold valueFor
  split
  · rfl
  split
  · rfl
  next type _ =>
    simp only [StateT.run_bind, StateT.run_get, pure_bind, access_run]
    -- whether it is a read or a move makes no difference to the other variables
    generalize (if take && !s.registry.isCopy type then AccessKind.move else .read) = kind
    split
    · cases hacc : s.ledger.access y.id { kind, scope := here, pos } with
      | error fault => rfl
      | ok ledger =>
        show ledger.get? x = _
        unfold Ledger.access at hacc
        split at hacc
        · cases hacc
        next h _ =>
          cases hh : h.access { kind, scope := here, pos } with
          | error fault =>
            rw [hh] at hacc
            cases hacc
          | ok h' =>
            rw [hh] at hacc
            obtain rfl := Except.ok.inj hacc
            rw [Ledger.get?_put, if_neg hne]
    · rfl

end

/-! ## Expressions that name something -/

/-- The expression at a place stands for a symbol, seen from the current scope. -/
inductive Denotes (t : Table) : Expr → Position → Nat → Prop where
  | bare {name : String} {pos : Position} {id : Nat} (h : t.lookup name = .ok id) :
      Denotes t (.ident name pos) pos id
  | path {segments : List String} {pos : Position} {id : Nat} (h : t.resolve segments = .ok id) :
      Denotes t (.path segments pos) pos id
  /-- A chain of members that starts with a container. -/
  | dotted {target : Expr} {name first : String} {rest : List String} {pos : Position} {c id : Nat}
      (hchain : memberPath target = some (first :: rest)) (hfirst : t.lookup first = .ok c)
      (hcontainer : (t.symbol c).kind.isContainer = true)
      (h : t.resolve (first :: rest ++ [name]) = .ok id) :
        Denotes t (.member target name pos) pos id

def isBare : Expr → Bool
  | .ident .. => true
  | _ => false

/-- A symbol leads to another one through so many uses. -/
inductive Uses (t : Table) : Nat → Nat → Nat → Prop where
  | direct {x : Nat} : Uses t x 0 x
  | through {id next n x : Nat} (h : (t.symbol id).aliasOf = some next) (hrest : Uses t next n x) :
      Uses t id (n + 1) x

/-- How an expression is checked where its value is consumed: as the source of an assignment, an
argument, a result or a part of a literal, or as the value of a new variable. -/
inductive Consumes (here : Int) (e : Expr) : CheckM Typed → Prop where
  | operand : Consumes here e (operand here e).take
  | binding : Consumes here e (bindingValue here e)

section

variable {s : Store} {here : Int} {e : Expr} {pos : Position} {id : Nat} {name : String} {t : Table}

theorem Denotes.consumes_eq (he : Denotes s.table e pos id) {m : CheckM Typed}
    (hm : Consumes here e m) : m = (operand here e).take := by
  cases hm with
  | operand => rfl
  | binding => cases he <;> rfl

theorem ident_agrees (h : s.table.lookup name = .ok id) (take : Bool) :
    Agrees ((ident here name pos take).run s)
      ((valueFor here (s.table.target id) pos take).run s) := by
  have hrun : (ident here name pos take).run s = (valueOf here id pos take).run s := by
    rw [ident, StateT.run_bind, lookup_run h]
    rfl
  rw [hrun]
  exact valueOf_agrees s here pos take id

theorem pathValue_agrees (h : s.table.resolve path = .ok id) :
    Agrees ((pathValue here path pos).run s)
      ((valueFor here (s.table.target id) pos false).run s) := by
  have hrun : (pathValue here path pos).run s = (valueOf here id pos false).run s := by
    rw [pathValue, StateT.run_bind, resolvePath_run h]
    rfl
  rw [hrun]
  exact valueOf_agrees s here pos false id

/-- A chain of members that starts with a container is a qualified name; the container is marked
first. -/
theorem member_run {first : String} {rest : List String} {c : Nat}
    (hfirst : s.table.lookup first = .ok c)
    (hcontainer : (s.table.symbol c).kind.isContainer = true) (target : Operand) :
    (member here (some (first :: rest)) target name pos).run s =
      (pathValue here (first :: rest) pos).run { s with table := s.table.markUsed c } := by
  simp only [member, StateT.run_bind, StateT.run_get, pure_bind, hfirst, symbol,
    StateT.run_pure, hcontainer,
    if_true]
  rfl

/-- Each expression that names a symbol does what is done with what the symbol stands for, and a
bare name alone takes it. -/
theorem Denotes.take_agrees (he : Denotes s.table e pos id) : Agrees ((operand here e).take.run s)
      ((valueFor here (s.table.target id) pos (isBare e)).run s) := by
  cases he with
  | bare h =>
    rw [operand]
    exact ident_agrees h true
  | path h =>
    rw [operand]
    exact pathValue_agrees h
  | dotted hchain hfirst hcontainer h =>
    -- to mark the container does not change what the path stands for
    next target name first rest c =>
      have hmarked := s.table.remarked_markUsed c
      rw [operand, hchain, value, Option.map_some, List.cons_append, member_run hfirst hcontainer]
      have hpath : (s.table.markUsed c).resolve (first :: rest ++ [name]) = .ok id :=
        hmarked.resolveFrom_ok h
      obtain ⟨used, heq⟩ := hmarked.target_eq id
      have hvalue : Agrees ((pathValue here (first :: rest ++ [name]) pos).run
          { s with table := s.table.markUsed c }) _ := pathValue_agrees hpath
      rw [heq] at hvalue
      exact hvalue.trans (valueFor_withTable s here pos false (s.table.target id) _)

/-- Up to one use, the symbol that an expression stands for has the variable as its target. -/
theorem Uses.target_eq {n x : Nat} (h : Uses t id n x) (hn : n ≤ 1)
    (hx : (t.symbol x).aliasOf = none) :
    t.target id = t.symbol x := by
  cases h with
  | direct => simp only [Table.target, hx]
  | through halias hrest =>
    cases hrest with
    | direct => simp only [Table.target, halias]
    | through _ _ => omega

/-- Through more uses, the target is another symbol. -/
theorem Uses.target_id_ne {n x : Nat} (h : Uses t id n x) (hn : 2 ≤ n)
    (hids : ∀ {i : Nat} {y : Symbol}, t.symbols[i]? = some y → y.id = i)
    (hx : (t.symbol x).aliasOf = none) :
    (t.target id).id ≠ x := by
  cases h with
  | direct => omega
  | through halias hrest =>
    next next n =>
      have htarget : t.target id = t.symbol next := by simp only [Table.target, halias]
      cases hrest with
      | direct => omega
      | through hnext _ =>
        rw [htarget]
        rintro rfl
        cases hget : t.symbols[next]? with
        | none =>
          rw [Table.symbol, Array.getD_eq_getD_getElem?, hget] at hnext
          cases hnext
        | some y =>
          rw [Table.symbol_of_get? hget, hids hget] at hx
          rw [hx] at hnext
          cases hnext

/-- A variable is used in the same way under its own name, from wherever the name is seen. -/
theorem own_agrees {c x : Nat} (hname : s.table.lookupFrom c name = .ok x)
    (hx : (s.table.symbol x).aliasOf = none) (take : Bool) :
    Agrees ((ident here name pos take).run { s with table := { s.table with current := c } })
      ((valueFor here (s.table.symbol x) pos take).run s) := by
  have hlookup : { s.table with current := c }.lookup name = .ok x := by
    rw [Table.lookup, (s.table.remarked_goto c).lookupFrom_eq, hname]
  have htarget : { s.table with current := c }.target x = s.table.symbol x :=
    Uses.direct.target_eq (t := { s.table with current := c }) (Nat.zero_le 1) hx
  have hown : Agrees
    ((ident here name pos take).run { s with table := { s.table with current := c } }) _ :=
    ident_agrees hlookup take
  rw [htarget] at hown
  exact hown.trans (valueFor_withTable s here pos take _ _)

end

section

variable {s : Store} {here : Int} {e : Expr} {pos : Position} {id uses x c : Nat} {name : String}
  {m : CheckM Typed}

/-- A variable `x` that `name` stands for in the scope `c`, and an expression at the same place that
leads to `x` through some uses and whose value is consumed. Up to one use, a bare name comes to what
`name` comes to there: the same type or faults, and the same state of all variables. A path comes to
what it means to read `name`, which is the same if the value is copied. Through more uses, `x` is
not accessed. -/
theorem variable_consumed_by_its_names
    (hids : ∀ {i : Nat} {y : Symbol}, s.table.symbols[i]? = some y → y.id = i)
    (hx : (s.table.symbol x).aliasOf = none) (hname : s.table.lookupFrom c name = .ok x)
    (he : Denotes s.table e pos id) (huses : Uses s.table id uses x) (hm : Consumes here e m) :
    let own := operand here (.ident name pos)
    let there : Store := { s with table := { s.table with current := c } }
    (uses ≤ 1 → (isBare e = true → Agrees (m.run s) (own.take.run there)) ∧
      (isBare e = false → Agrees (m.run s) (own.read.run there)) ∧
      ((∀ type ∈ (s.table.symbol x).type, s.registry.isCopy type = true) →
        Agrees (m.run s) (own.take.run there))) ∧
    (2 ≤ uses → (m.run s).2.ledger.get? x = s.ledger.get? x) := by
  intro own there
  -- only the symbol that the expression leads to matters, and there it is `x` through up to one use
  rw [he.consumes_eq hm]
  have hvalue : Agrees ((operand here e).take.run s) _ := he.take_agrees
  constructor
  · intro hle
    rw [huses.target_eq hle hx] at hvalue
    have htake :
      Agrees (own.take.run there) ((valueFor here (s.table.symbol x) pos true).run s) := by
      dsimp only [own]
      rw [operand]
      exact own_agrees hname hx true
    have hread :
      Agrees (own.read.run there) ((valueFor here (s.table.symbol x) pos false).run s) := by
      dsimp only [own]
      rw [operand]
      exact own_agrees hname hx false
    refine ⟨fun hbare => ?_, fun hbare => ?_, fun hcopy => ?_⟩
    · rw [hbare] at hvalue
      exact hvalue.trans htake.symm
    · rw [hbare] at hvalue
      exact hvalue.trans hread.symm
    · refine hvalue.trans (.trans ?_ htake.symm)
      -- a value that is copied is read, also where it is taken
      cases isBare e with
      | true => exact ⟨rfl, rfl, rfl, rfl⟩
      | false =>
        rw [valueFor_copied hcopy]
        exact ⟨rfl, rfl, rfl, rfl⟩
  · intro hmany
    rw [hvalue.ledger]
    exact valueFor_get? (huses.target_id_ne hmany hids hx)

end

/-- A variable with a name from a use, and one more from a use of that. -/
def namedThrice : Store :=
  let token := (register (.named "Token" [])).run {}
  { token.2 with
    table := Table.after [.declareTyped "k" .letVar .unknown (some token.1) false,
      .declareAlias 0 "a" 0 .unknown, .declareAlias 0 "b" 1 .unknown]
    ledger := ({} : Ledger).declare 0 "k" false true }

/-- The name from a use moves the variable, and the name from a use of that leaves it. -/
theorem variable_consumed_by_its_names_sample :
    let own := operand (-2) (.ident "k" .unknown)
    Agrees ((operand (-2) (.ident "a" .unknown)).take.run namedThrice) (own.take.run namedThrice) ∧
      Agrees ((operand (-2) (.path ["a"] .unknown)).take.run namedThrice)
        (own.read.run namedThrice) ∧
      ((bindingValue (-2) (.ident "b" .unknown)).run namedThrice).2.ledger.get? 0 =
        namedThrice.ledger.get? 0 := by
  have hids : ∀ {i : Nat} {y : Symbol}, namedThrice.table.symbols[i]? = some y → y.id = i :=
    (Table.consistent_after _).symbol_id
  have hname : namedThrice.table.lookupFrom 0 "k" = .ok 0 := rfl
  have hfirst : Uses namedThrice.table 1 1 0 := .through rfl .direct
  have hbare :=
    variable_consumed_by_its_names (m := (operand (-2) (.ident "a" .unknown)).take) hids rfl
    hname (.bare rfl) hfirst .operand
  have hpath :=
    variable_consumed_by_its_names (m := (operand (-2) (.path ["a"] .unknown)).take) hids rfl
    hname (.path rfl) hfirst .operand
  have hsecond :=
    variable_consumed_by_its_names (m := bindingValue (-2) (.ident "b" .unknown)) hids rfl
    hname (.bare rfl) (.through rfl hfirst) .binding
  exact ⟨(hbare.1 le_rfl).1 rfl, (hpath.1 le_rfl).2.1 rfl, hsecond.2 le_rfl⟩

end Checking

/-! ## Values that are consumed twice -/

/-- A unit that hands what an expression stands for to a function, twice. The constant `m::k` has
the name `k` from a use, and the name `j` from a use of that. -/
def spendingTwice (e : Expr) : List Item :=
  let head (name : String) (isPublic : Bool) : DeclHead := ⟨.unknown, ⟨name, .unknown⟩, isPublic⟩
  let token : TypeExpr := .named ["Token"] [] .unknown
  let spend : Item := .expression (.call (.ident "spend" .unknown) [e] .unknown)
  [.structType ⟨head "Token" false, [], []⟩,
    .function (.mk ⟨head "spend" false, [], [⟨⟨"_t", .unknown⟩, some token, false⟩],
    none⟩ (some [])),
    .moduleBlock (head "m" false)
    [.constant ⟨head "k" true, some token, some (.struct "Token" [] .unknown)⟩],
    .use ⟨.unknown, ["m", "k"], none⟩, .use ⟨.unknown, ["k"], some "j"⟩, spend, spend]

/-- Consumed by the name from one use, the constant is missed the second time. Consumed by the name
from two uses or by a path, with colons or with a dot, it is not. -/
theorem consumed_twice_unnoticed :
    let errors (e : Expr) := (analyze {} (spendingTwice e)).errors.map (·.code)
    errors (.ident "k" .unknown) = [.useAfterMove] ∧ errors (.ident "j" .unknown) = [] ∧
      errors (.path ["m", "k"] .unknown) = [] ∧
      errors (.member (.ident "m" .unknown) "k" .unknown) = [] := by
  decide +kernel

end UnitCheck
