import UnitCheck.Checking.Operand
import UnitCheck.Proofs.Checking.Stores

/-!
# Outcomes of checks

`Ends ρ s x Q` — the check `x`, run on the store `s` with the rights `ρ`, ends in a good store that
it was entitled to reach, with a result that satisfies `Q`. `Ends.bind` puts checks together; below
it stands one such statement for each operation on a store, so that the checks of expressions can be
gone through without opening any of them.

`Diagnostic.Clean A` — a diagnostic is about the unit: it does not say that the checker itself went
wrong, neither by its code nor by being what a failed change of scope is reported with, and it
stands at a place that the sites `A` cover. A fault of the registry or of the table has no place of
its own: each check gives it the place of the part of the unit that it was met in.
-/

namespace UnitCheck

open List

variable {t dst src : Ty} {pos : Position} {d : Diagnostic} {code : Code}

/-! ## Diagnostics about the unit -/

/-- The codes that are never used for what goes wrong in the checker itself. -/
def Code.aboutUnit : Code → Bool
  | internal | invalidScope => false
  | _ => true

namespace Diagnostic

structure Clean (A : Sites) (d : Diagnostic) : Prop where
  code_ne : d.code ≠ .internal
  ne_scopeFault : ∀ (fault : ScopeFault) (pos : Position), d ≠ fault.diagnostic pos
  covered : A.covers d.pos

variable {A : Sites}

theorem clean_of_code (h : d.code.aboutUnit = true) (hpos : A.covers d.pos) : d.Clean A := by
  refine ⟨?_, ?_, hpos⟩
  · intro hcode
    rw [hcode] at h
    cases h
  · rintro fault pos rfl
    cases h

theorem clean_mk' (hpos : A.covers pos) (message : String) (h : code.aboutUnit = true) :
    (mk' code pos message).Clean A :=
  clean_of_code h hpos

/-- How the messages of scope faults begin. -/
theorem scopeFault_message (fault : ScopeFault) :
    fault.message.toList.take 2 = ['s', 'c'] ∨ fault.message.toList.take 2 = ['c', 'a'] := by
  cases fault with
  | missing id =>
    change (("scope " ++ toString id) ++ " does not exist").toList.take 2 = _ ∨ _
    rw [String.append_assoc, String.toList_append]
    exact .inl rfl
  | notChild id current =>
    change ((("scope " ++ toString id) ++ " is not a child of the current scope ") ++
      toString current).toList.take 2 = _ ∨ _
    rw [String.append_assoc, String.append_assoc, String.toList_append]
    exact .inl rfl
  | leavingGlobal => exact .inr rfl

/-- A message that begins in another way is not that of a scope fault. -/
theorem clean_of_message (hi : d.code ≠ .internal) (hsc : d.message.toList.take 2 ≠ ['s', 'c'])
    (hca : d.message.toList.take 2 ≠ ['c', 'a']) (hpos : A.covers d.pos) : d.Clean A := by
  refine ⟨hi, ?_, hpos⟩
  rintro fault pos rfl
  rcases scopeFault_message fault with h | h
  · exact hsc h
  · exact hca h

end Diagnostic

theorem SymbolKind.take_name (k : SymbolKind) (rest : List Char) :
    (k.name.toList ++ rest).take 2 ≠ ['s', 'c'] ∧ (k.name.toList ++ rest).take 2 ≠ ['c', 'a'] := by
  cases k <;> simp [name]

section

variable {A : Sites}

theorem LookupFault.clean (fault : LookupFault) (hpos : A.covers pos) :
    (fault.diagnostic pos).Clean A := by
  cases fault with
  | noMembers kind path segment =>
    have htake := kind.take_name (" ".toList ++ ((Text.quoted (Text.dotted path)).toList ++
      (" has no members; cannot resolve ".toList ++ (Text.quoted segment).toList)))
    simp only [← String.toList_append, ← String.append_assoc] at htake
    exact Diagnostic.clean_of_message (fun h => by cases h) htake.1 htake.2 hpos
  | _ => exact Diagnostic.clean_of_code rfl hpos

theorem UnifyFault.clean (fault : UnifyFault) (hpos : A.covers pos) :
    (fault.diagnostic pos).Clean A := by
  cases fault <;> exact Diagnostic.clean_mk' hpos _ rfl

theorem DeclareFault.clean_taken (name : String) (previous : Symbol) (hpos : A.covers pos) :
    ((DeclareFault.taken name previous).diagnostic pos).Clean A :=
  Diagnostic.clean_of_code rfl hpos

/-- An access of a listed kind to a tracked variable is refused for the variable's sake. -/
theorem Holding.access_error {h : Holding} {a : Access} {fault : AccessFault}
    (hkind : ∀ n, a.kind ≠ .unlisted n) (hno : h.access a = .error fault) (hpos : A.covers pos) :
    (fault.diagnostic pos).Clean A := by
  have hcode : fault.code.aboutUnit = true := by
    unfold access at hno
    split at hno
    · obtain rfl := Except.error.inj hno
      rfl
    -- an access that must be alone is refused by a writer or by readers
    have halone : ∀ {fault : AccessFault}, h.recordAlone a = .error fault →
      fault.code.aboutUnit = true := by
      intro fault hrec
      unfold recordAlone at hrec
      split at hrec
      · obtain rfl := Except.error.inj hrec
        rfl
      · obtain rfl := Except.error.inj hrec
        rfl
      · cases hrec
    cases hk : a.kind <;> simp only [hk] at hno
    case read | borrow =>
      split at hno
      · obtain rfl := Except.error.inj hno
        rfl
      split at hno
      · obtain rfl := Except.error.inj hno
        rfl
      · cases hno
    case borrowMutably =>
      split at hno
      · obtain rfl := Except.error.inj hno
        rfl
      split at hno
      · obtain rfl := Except.error.inj hno
        rfl
      · exact halone hno
    case write =>
      split at hno
      · obtain rfl := Except.error.inj hno
        rfl
      cases hrec : h.recordAlone a with
      | ok h' =>
        rw [hrec] at hno
        cases hno
      | error e =>
        rw [hrec] at hno
        obtain rfl := Except.error.inj hno
        exact halone hrec
    case move =>
      split at hno
      · obtain rfl := Except.error.inj hno
        rfl
      · cases hno
    case unlisted n => exact absurd hk (hkind n)
  exact Diagnostic.clean_of_code hcode hpos

end

/-- All of these are about the unit. -/
def AllClean (A : Sites) (ds : List Diagnostic) : Prop := ∀ d ∈ ds, d.Clean A

section

variable {A : Sites}

theorem allClean_nil : AllClean A [] := by simp [AllClean]

theorem allClean_one (h : d.Clean A) : AllClean A [d] := by simpa [AllClean] using h

theorem AllClean.append {ds es : List Diagnostic} (hd : AllClean A ds) (he : AllClean A es) :
    AllClean A (ds ++ es) := by
  intro d h
  rcases mem_append.mp h with h | h
  · exact hd d h
  · exact he d h

/-- One diagnostic whose code says that it is about the unit. -/
theorem allClean_mk' (hpos : A.covers pos) (message : String) (h : code.aboutUnit = true) :
    AllClean A [.mk' code pos message] :=
  allClean_one (Diagnostic.clean_mk' hpos message h)

/-- All of these have codes that are never used for what goes wrong in the checker, and stand at one
place. -/
def AllAbout (pos : Position) (ds : List Diagnostic) : Prop :=
  ∀ d ∈ ds, d.code.aboutUnit = true ∧ d.pos = pos

theorem AllAbout.clean {ds : List Diagnostic} (hds : AllAbout pos ds) (hpos : A.covers pos) :
    AllClean A ds :=
  fun d hd => Diagnostic.clean_of_code (hds d hd).1 ((hds d hd).2 ▸ hpos)

theorem AllAbout.code_ne {ds : List Diagnostic} (h : AllAbout pos ds) :
    ¬ ∃ d ∈ ds, d.code = .invalidScope := by
  rintro ⟨d, hd, hcode⟩
  have habout := (h d hd).1
  rw [hcode] at habout
  cases habout

end

/-- A symbol that can be looked at from the current scope: it is one of the table, it is seen, and
its type is registered. -/
structure Store.Offers (s : Store) (y : Symbol) : Prop where
  seen : s.table.SeesSymbol s.table.current y.id
  admits : s.registry.Admits y

/-- The type of a typed thing is registered, and what is wrong with it is about the unit. -/
structure Store.Types (A : Sites) (s : Store) (t : Typed) : Prop where
  holds : s.registry.Holds t.type
  clean : AllClean A t.faults

section

variable {A : Sites} {s : Store}

theorem Store.Types.broken {faults : List Diagnostic} (h : s.Good) (hf : AllClean A faults) :
    s.Types A (.broken faults) :=
  ⟨h.registry.basic .invalid, hf⟩

theorem Store.Types.failed (h : s.Good) (hpos : A.covers pos) (message : String)
    (hc : code.aboutUnit = true) :
    s.Types A (.failed code pos message) :=
  .broken h (allClean_mk' hpos message hc)

/-- A typed thing without faults. -/
theorem Store.Types.ok (ht : s.Holds t) : s.Types A { type := t } := ⟨ht, allClean_nil⟩

theorem Store.Types.mono {P : Int → Prop} {s' : Store} {t : Typed} (h : s.Types A t)
    (he : s.Reaches P s') : s'.Types A t :=
  ⟨he.holds h.holds, h.clean⟩

end

/-- What a name has been found to stand for can be seen from here. -/
def Store.Finds (A : Sites) (s : Store) : Except Diagnostic Nat → Prop
  | .ok id => s.table.SeesSymbol s.table.current id
  | .error d => d.Clean A

namespace Checking

theorem run_bind {α β : Type} (x : CheckM α) (f : α → CheckM β) (s : Store) :
    (x >>= f).run s = (f (x.run s).1).run (x.run s).2 := rfl

/-! ## Running checks -/

structure Ends {α : Type} (ρ : Rights) (s : Store) (x : CheckM α)
    (Q : Store → α → Prop) : Prop where
  good : (x.run s).2.Good
  evaluates : s.Evaluates ρ (x.run s).2
  result : Q (x.run s).2 (x.run s).1

section

variable {α β : Type} {ρ : Rights} {s : Store} {Q : Store → α → Prop} {Q' : Store → β → Prop}
  {x : CheckM α}
  {f : α → CheckM β}

theorem Ends.pure {a : α} (h : s.Good) (ha : Q s a) : Ends ρ s (Pure.pure a) Q := ⟨h, .refl ρ s, ha⟩

theorem Ends.bind (hx : Ends ρ s x Q)
    (hf : ∀ a s', s'.Good → s.Evaluates ρ s' → Q s' a → Ends ρ s' (f a) Q') :
    Ends ρ s (x >>= f) Q' := by
  have hnext := hf (x.run s).1 (x.run s).2 hx.good hx.evaluates hx.result
  exact ⟨hnext.good, hx.evaluates.trans hnext.evaluates, hnext.result⟩

theorem Ends.mapM {xs : List α} (h : s.Good)
    (hmono : ∀ {s s' : Store} {b : β}, s.Evaluates ρ s' → Q' s b → Q' s' b)
    (hf : ∀ a ∈ xs, ∀ {s : Store}, s.Good → Ends ρ s (f a) Q') :
    Ends ρ s (xs.mapM f) fun s' bs => ∀ b ∈ bs, Q' s' b := by
  induction xs generalizing s with
  | nil =>
    rw [mapM_nil]
    exact .pure h (by simp)
  | cons a xs ih =>
    rw [forall_mem_cons] at hf
    rw [mapM_cons]
    refine (hf.1 h).bind fun b s' h' _ hb => ?_
    refine (ih h' hf.2).bind fun bs s'' h'' he hbs => ?_
    exact .pure h'' (forall_mem_cons.mpr ⟨hmono he hb, hbs⟩)

theorem Ends.discard (hx : Ends ρ s x Q) : Ends ρ s (discard x) fun s' _ => ∃ a, Q s' a :=
  ⟨hx.good, hx.evaluates, (x.run s).1, hx.result⟩

theorem Ends.imp {R : Store → α → Prop} (hx : Ends ρ s x Q) (hq : ∀ s' a, Q s' a → R s' a) :
    Ends ρ s x R :=
  { hx with result := hq _ _ hx.result }

/-- Looking at the store is no step of its own. -/
theorem Ends.get {f : Store → CheckM α} (hf : Ends ρ s (f s) Q) :
    Ends ρ s (MonadState.get >>= f) Q :=
  ⟨hf.good, hf.evaluates, hf.result⟩

theorem Ends.onRegistry {x : RegistryM α} {R : Registry → α → Prop} (h : s.Good)
    (hx : s.registry.Evolves (x.run s.registry).2)
    (hr : R (x.run s.registry).2 (x.run s.registry).1) :
    Ends ρ s (onRegistry x) fun s' a => R s'.registry a :=
  ⟨h.withRegistry hx, Store.evaluates_withRegistry ρ s hx.extends_, hr⟩

end

section

variable {ρ : Rights} {s : Store}

/-! ## Types -/

section

variable (h : s.Good) {id : Nat} {scope : Int}
include h

theorem resolve_ends (ht : s.Holds t) : Ends ρ s (resolve t) fun s' u => s'.Holds u := by
  have hr := h.registry.resolve_run ht
  refine Ends.onRegistry (R := fun r u => r.Holds u) h hr.evolves ?_
  rw [hr.type_eq]
  exact hr.holds

theorem register_ends (hnv : ∀ v, t ≠ .var v) (ht : ∀ u ∈ t.parts, s.Holds u) :
    Ends ρ s (register t) fun s' u => s'.Holds u := by
  obtain ⟨hsettled, -, hholds⟩ := h.registry.register_parts hnv ht
  exact Ends.onRegistry (R := fun r u => r.Holds u) h hsettled.evolves hholds

theorem register_compound_ends (hc : t.Compound) (ht : ∀ u ∈ t.parts, s.Holds u) :
    Ends ρ s (register t) fun s' u => u = t ∧ s'.Holds t := by
  have hends : Ends ρ s (register t) fun s' u => s'.Holds u := register_ends h hc.2.1 ht
  have heq : ((register t).run s).1 = t := by
    show ((Registry.register t).run s.registry).1 = t
    rw [Registry.register_run_of_parts h.registry.toInterned hc ht]
  have hheld := hends.result
  rw [heq] at hheld
  exact ⟨hends.good, hends.evaluates, heq, hheld⟩

theorem newVar_ends (hint : String) (rigid : Bool) :
    Ends ρ s (onRegistry (Registry.newVar hint rigid)) fun s' v => s'.Holds (.var v) :=
  Ends.onRegistry (R := fun r v => r.Holds (.var v)) h (h.registry.newVar hint rigid).evolves
    (s.registry.holds_newVar hint rigid)

theorem fresh_ends : Ends ρ s fresh fun s' u => s'.Holds u :=
  Ends.onRegistry (R := fun r u => r.Holds u) h (h.registry.newVar "" false).evolves
    (s.registry.holds_newVar "" false)

theorem instantiate_ends (ht : s.Holds t) (params : List TypeVar) :
    Ends ρ s (onRegistry (Registry.instantiate t params)) fun s' u => s'.Holds u := by
  obtain ⟨hsettled, hholds⟩ := h.registry.instantiate_settled ht params
  exact Ends.onRegistry (R := fun r u => r.Holds u) h hsettled.evolves hholds

theorem instantiateAll_ends {ts : List Ty} (hts : ∀ t ∈ ts, s.Holds t) (params : List TypeVar) :
    Ends ρ s (onRegistry (Registry.instantiateAll ts params)) fun s' us =>
      ∀ u ∈ us, s'.Holds u := by
  obtain ⟨hsettled, hholds⟩ := h.registry.instantiateAll_settled hts params
  exact Ends.onRegistry (R := fun r us => ∀ u ∈ us, r.Holds u) h hsettled.evolves hholds

theorem assignable_ends (hd : s.Holds dst) (hs : s.Holds src) :
    Ends ρ s (onRegistry (Registry.assignable dst src)) fun _ _ => True :=
  Ends.onRegistry (R := fun _ _ => True) h (h.registry.assignable_settled hd hs).evolves trivial

theorem unifyAssignable_ends (hd : s.Holds dst) (hs : s.Holds src) :
    Ends ρ s (onRegistry (Registry.unifyAssignable dst src).run) fun _ _ => True :=
  Ends.onRegistry (R := fun _ _ => True) h (h.registry.unifyAssignable_evolves hd hs) trivial

theorem unify_ends {a b : Ty} (ha : s.Holds a) (hb : s.Holds b) :
    Ends ρ s (unify a b) fun s' out => ∀ u, out = .ok u → s'.Holds u := by
  have hkept := (Registry.unify_runs h.registry ha hb).preserves (.pair h.registry ha hb)
  refine Ends.onRegistry (R := fun r out => ∀ u, out = .ok u → r.Holds u) h
    (h.registry.unify_evolves ha hb) ?_
  intro u hu
  have hu : ((Registry.unify a b).run.run s.registry).1 = .ok u := hu
  exact hkept.holds [u] (by rw [hu]; rfl) u (mem_singleton_self u)

theorem hasFree_ends (t : Ty) : Ends ρ s (hasFree t) fun _ _ => True := ⟨h, .refl ρ s, trivial⟩

omit h in
theorem holds_stripRefs {r : Registry} (h : r.Consistent) (ht : r.Holds t) :
    r.Holds (stripRefs t) := by
  fun_induction stripRefs t with
  | case1 inner m l ih => exact ih (h.holds_part ht (by simp [Ty.parts]))
  | case2 t => exact ht

theorem behindRefs_ends (ht : s.Holds t) : Ends ρ s (behindRefs t) fun s' u => s'.Holds u :=
  (resolve_ends h ht).bind fun _ _ h' _ hu => .pure h' (holds_stripRefs h'.registry hu)

/-! ## Names -/

omit h in
theorem lookup_run {name : String} (hname : s.table.lookup name = .ok id) :
    (lookup name pos).run s = (.ok id, s) :=
  congrArg (fun r => (Except.mapError (fun fault : LookupFault => fault.diagnostic pos) r, s)) hname

omit h in
theorem resolvePath_run {path : List String} (hpath : s.table.resolve path = .ok id) :
    (resolvePath path pos).run s = (.ok id, s) :=
  congrArg (fun r => (Except.mapError (fun fault : LookupFault => fault.diagnostic pos) r, s)) hpath

omit h in
theorem finds_mapError {A : Sites} {found : Except LookupFault Nat} (hpos : A.covers pos)
    (h : ∀ id, found = .ok id → s.table.SeesSymbol s.table.current id) :
    s.Finds A (found.mapError (·.diagnostic pos)) := by
  cases found with
  | error fault => exact fault.clean hpos
  | ok id => exact h id rfl

theorem lookup_ends (name : String) (hpos : ρ.sites.covers pos) :
    Ends ρ s (lookup name pos) (Store.Finds ρ.sites) :=
  ⟨h, .refl ρ s, finds_mapError hpos fun _ => h.table.lookupFrom_sees⟩

theorem resolvePath_ends (path : List String) (hpos : ρ.sites.covers pos) :
    Ends ρ s (resolvePath path pos) (Store.Finds ρ.sites) :=
  ⟨h, .refl ρ s, finds_mapError hpos fun _ => h.table.resolveFrom_sees⟩

theorem markUsed_ends (id : Nat) : Ends ρ s (onTable (modify (·.markUsed id))) fun s' _ =>
      s' = { s with table := s.table.markUsed id } := by
  have hgrows := s.table.grows_markUsed id
  exact ⟨h.withTable (h.table.markUsed id) hgrows (typed_markUsed id h.typed),
    Store.evaluates_withTable ρ s hgrows rfl fun ho => ho.markUsed id, rfl⟩

theorem useSymbol_ends (hid : s.table.SeesSymbol s.table.current id) :
    Ends ρ s (useSymbol id) Store.Offers := by
  refine (markUsed_ends h id).bind fun _ s' h' he hs' => ?_
  have hsees := he.table.seesSymbol hid
  rw [← he.current] at hsees
  obtain ⟨id', hget, hseen⟩ := h'.table.target_sees hsees
  refine ⟨h', .refl ρ s', ⟨s'.table.target id, ?_, hseen⟩, h'.typed hget⟩
  change s'.table.symbols[(s'.table.target id).id]? = _
  rw [h'.table.symbol_id hget, hget]

/-! ## Variables -/

omit h in
/-- An access: tracked variables are asked, and a granted access leaves an event; others do not
matter. -/
theorem access_run (s : Store) (y : Symbol) (kind : AccessKind) (scope : Int) (pos : Position) :
    (access y kind scope pos).run s =
      if s.ledger.isTracked y.id then
        match s.ledger.access y.id { kind, scope, pos } with
        | .ok ledger => ([], { s with ledger, trail := .accessed y.id kind :: s.trail })
        | .error fault => ([fault.diagnostic pos], s)
      else ([], s) := by
  unfold access
  simp only [StateT.run_bind, StateT.run_get, pure_bind]
  cases s.ledger.isTracked y.id with
  | false => rfl
  | true =>
    cases s.ledger.access y.id { kind, scope, pos } <;> rfl

/-- An access is granted or refused for the sake of the variable; either way the store stays
good. -/
theorem access_ends {y : Symbol} {kind : AccessKind} (hpos : ρ.sites.covers pos)
    (hy : s.table.SeesSymbol s.table.current y.id) (hkind : ∀ n, kind ≠ .unlisted n)
    (hscope : ρ.makes scope) :
    Ends ρ s (access y kind scope pos) fun _ ds => AllClean ρ.sites ds := by
  have hrun := access_run s y kind scope pos
  -- accesses to what is not tracked are not looked at
  cases ht : s.ledger.isTracked y.id with
  | false =>
    rw [ht, if_neg Bool.false_ne_true] at hrun
    constructor <;> rw [hrun]
    · exact h
    · exact .refl ρ s
    · exact allClean_nil
  | true =>
    rw [ht, if_pos rfl] at hrun
    obtain ⟨k, hget⟩ := Ledger.isTracked_iff.mp ht
    cases hacc : s.ledger.access y.id { kind, scope, pos } with
    | ok l =>
      rw [hacc] at hrun
      constructor <;> rw [hrun]
      · exact h.granted hacc _
      · exact Store.evaluates_granted hacc hy hscope
      · exact allClean_nil
    | error fault =>
      rw [hacc] at hrun
      constructor <;> rw [hrun]
      · exact h
      · exact .refl ρ s
      · rw [Ledger.access_tracked hget] at hacc
        cases hh : k.access { kind, scope, pos } with
        | ok k' =>
          rw [hh] at hacc
          cases hacc
        | error e =>
          rw [hh] at hacc
          obtain rfl := Except.error.inj hacc
          exact allClean_one (Holding.access_error hkind hh hpos)

theorem release_ends (hscope : ρ.drops scope) :
    Ends ρ s (onLedger (·.release scope)) fun _ _ => True :=
  ⟨h.release scope, Store.evaluates_release hscope s, trivial⟩

/-! ## Expected types -/

theorem mismatch_ends (hd : s.Holds dst) (hs : s.Holds src)
    (message : Ty → Ty → String) (pos : Position) :
    Ends ρ s (do
      let dst ← resolve dst
      let src ← resolve src
      return [Diagnostic.mk' .typeMismatch pos (message dst src)]) fun _ ds => AllAbout pos ds := by
  refine (resolve_ends h hd).bind fun _ _ h' he _ => ?_
  refine (resolve_ends h' (he.holds hs)).bind fun _ _ h'' _ _ => ?_
  exact .pure h'' (by simp [AllAbout, Diagnostic.mk', Code.aboutUnit])

/-- What does not fit is reported at the place that is asked for. -/
theorem expectAt_ends (hd : s.Holds dst) (hs : s.Holds src)
    (pos : Position) (what : String) : Ends ρ s (expect dst src pos what) fun _ ds =>
      AllAbout pos ds := by
  -- what is done once the types cannot be unified, or need not be
  have hwiden : ∀ {s' : Store}, s'.Good → s.Evaluates ρ s' →
      Ends ρ s' (do
        if ← onRegistry (Registry.assignable dst src) then return []
        let dst ← resolve dst
        let src ← resolve src
        return [Diagnostic.mk' .typeMismatch pos
          s!"mismatched types in {what}: expected {dst.text}, found {src.text}"]) fun _ ds =>
            AllAbout pos ds := by
    intro s' h' he
    refine (assignable_ends h' (he.holds hd) (he.holds hs)).bind fun ok s'' h'' he' _ => ?_
    split
    · exact .pure h'' (by simp [AllAbout])
    · exact mismatch_ends h'' (he'.holds (he.holds hd)) (he'.holds (he.holds hs)) _ pos
  unfold expect
  refine (hasFree_ends h dst).bind fun free s' h' he _ => ?_
  refine (hasFree_ends h' src).bind fun free' s'' h'' he' _ => ?_
  have he₂ := he.trans he'
  split
  · refine (unifyAssignable_ends h'' (he₂.holds hd) (he₂.holds hs)).bind fun out s₃ h₃ he₃ _ => ?_
    split
    · exact .pure h₃ (by simp [AllAbout])
    · exact .pure h₃
        (by simp [AllAbout, UnifyFault.diagnostic, Diagnostic.mk', UnifyFault.code, Code.aboutUnit])
    · exact hwiden h₃ (he₂.trans he₃)
  · exact hwiden h'' he₂

theorem expect_ends (hd : s.Holds dst) (hs : s.Holds src)
    (hpos : ρ.sites.covers pos) (what : String) :
    Ends ρ s (expect dst src pos what) fun _ ds => AllClean ρ.sites ds :=
  (expectAt_ends h hd hs pos what).imp fun _ _ hds => hds.clean hpos

theorem assignableEither_ends {a b : Ty} (ha : s.Holds a)
    (hb : s.Holds b) : Ends ρ s (assignableEither a b) fun _ _ => True := by
  unfold assignableEither
  refine (assignable_ends h ha hb).bind fun ok s' h' he _ => ?_
  split
  · exact .pure h' trivial
  · exact assignable_ends h' (he.holds hb) (he.holds ha)

/-- The attempts that decide compatibility leave the store good, also when they fail. -/
theorem compatible_ends {a b : Ty} (ha : s.Holds a)
    (hb : s.Holds b) : Ends ρ s (compatible a b) fun _ _ => True := by
  unfold compatible
  refine (hasFree_ends h a).bind fun free s' h' he _ => ?_
  refine (hasFree_ends h' b).bind fun free' s'' h'' he' _ => ?_
  have he₂ := he.trans he'
  split
  · refine (unifyAssignable_ends h'' (he₂.holds ha) (he₂.holds hb)).bind fun _ s₃ h₃ he₃ _ => ?_
    split
    · exact .pure h₃ trivial
    have he₃ := he₂.trans he₃
    refine (unifyAssignable_ends h₃ (he₃.holds hb) (he₃.holds ha)).bind fun _ s₄ h₄ he₄ _ => ?_
    split
    · exact .pure h₄ trivial
    have he₄ := he₃.trans he₄
    exact assignableEither_ends h₄ (he₄.holds ha) (he₄.holds hb)
  · exact assignableEither_ends h'' (he₂.holds ha) (he₂.holds hb)

end

end

end Checking

end UnitCheck
