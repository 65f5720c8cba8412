import UnitCheck.Checking.Operators
import UnitCheck.Proofs.Typing.Attempts

/-!
# What failed attempts leave behind

Giving a symbol a type and comparing operands go by way of unification, which is not taken back when
it fails.

* `failed_setType_keeps_types` — types without a variable that could have been bound are kept.
* `compatible_symmetric` — the order of operands that are not tuples does not matter: a failed first
  attempt binds nothing, or leaves the second one no chance that it would have had.
-/

namespace UnitCheck

open Registry Ty

namespace Checking

section

variable {s : Store}

/-! ## Types of symbols -/

theorem onRegistry_bind_run {α β : Type} (x : RegistryM α) (f : α → CheckM β) (s : Store) :
    (onRegistry x >>= f).run s = (f (x.run s.registry).1).run { s with registry :=
      (x.run s.registry).2 } :=
  rfl

/-- A failure to give a symbol a type comes from unification, if the symbol exists. -/
theorem setType_error {s' : Store} {id : Int} {type : Ty} {pos : Position} {ds : List Diagnostic}
    (hrun : (setType id type pos).run s = (ds, s')) (hds : ds ≠ []) :
    s' = s ∨ ∃ y old e r, s.table.symbol? id = some y ∧ y.type = some old ∧
      (Registry.unify old type).run.run s.registry = (.error e, r) ∧
      s' = { s with registry :=
        ((Registry.resolve type).run ((Registry.resolve old).run r).2).2 } := by
  unfold setType at hrun
  rw [StateT.run_bind, StateT.run_get, pure_bind] at hrun
  split at hrun
  · exact .inl (Prod.mk.inj hrun).2.symm
  next y hy =>
    split at hrun
    · exact absurd (Prod.mk.inj hrun).1.symm hds
    next old hold =>
      split at hrun
      · exact absurd (Prod.mk.inj hrun).1.symm hds
      unfold unify at hrun
      rw [onRegistry_bind_run] at hrun
      cases hout : (Registry.unify old type).run.run s.registry with
      | mk out r =>
        rw [hout] at hrun
        cases out with
        | ok t => exact absurd (Prod.mk.inj hrun).1.symm hds
        | error e => exact .inr ⟨y, old, e, r, hy, hold, hout, (Prod.mk.inj hrun).2.symm⟩

/-- **A symbol that cannot be given a type keeps the one it has.** The table is as before, and a
type stands for what it stood for before, unless the old and the new type of the symbol differ below
their heads only, and one of them has a free variable in common with that type. -/
theorem failed_setType_keeps_types {s' : Store} {id : Int} {type : Ty} {pos : Position}
    {ds : List Diagnostic} (h : s.registry.Reachable)
    (hold : ∀ y old, s.table.symbol? id = some y → y.type = some old → s.registry.Holds old)
    (ht : s.registry.Holds type) (hrun : (setType id type pos).run s = (ds, s')) (hds : ds ≠ []) :
    s'.table = s.table ∧ ∀ u, s.registry.Holds u →
      ((Registry.resolve u).run s'.registry).1 = ((Registry.resolve u).run s.registry).1 ∨
      ∃ y old v, s.table.symbol? id = some y ∧ y.type = some old ∧
        (s.registry.head old).label = (s.registry.head type).label ∧ v.rigid = false ∧
        s.registry.occurs v u = true ∧
        (s.registry.occurs v old = true ∨ s.registry.occurs v type = true) := by
  have hc := h.consistent
  rcases setType_error hrun hds with rfl | ⟨y, old, e, r, hy, hty, hunify, rfl⟩
  · exact ⟨rfl, fun u _ => .inl rfl⟩
  refine ⟨rfl, fun u hu => ?_⟩
  have hHold := hold y old hy hty
  have hkept := (hc.unify_error_run hHold ht hunify).preserves (.pair hc hHold ht)
  -- the message resolves both types, which binds nothing
  have hres := hkept.consistent.resolve_run (hkept.extends_.holds hHold)
  have hres' := hres.consistent.resolve_run (hres.grows.holds (hkept.extends_.holds ht))
  have hg := hres.grows.trans hres'.grows
  rw [(hres'.consistent.resolve_run (hg.holds (hkept.extends_.holds hu))).type_eq,
    (hc.resolve_run hu).type_eq, hg.applied]
  by_cases hsame : r.applied u = s.registry.applied u
  · exact .inl hsame
  · obtain ⟨hlab, v, hv, hmu, hm⟩ := hc.unify_error_frame hHold ht hunify hu hsame
    rw [← hc.occurs_iff_mentions hHold, ← hc.occurs_iff_mentions ht] at hm
    rw [← hc.occurs_iff_mentions hu] at hmu
    exact .inr ⟨y, old, v, hy, hty, hlab, hv, hmu, hm⟩

end

namespace Leftover

/-! A symbol of type `(a, int)`. -/

def old : Ty := .tuple [.var Sample.a, .int]

def new : Ty := .tuple [.string, .string]

def store : Store where
  registry := performAll [.newVar "a" false, .register old, .register new] (Registry.empty 0)
  table := ((Table.declareTyped "x" .letVar default (some old) true).run {}).2

theorem reachable : store.registry.Reachable := ⟨0, later_performAll (by decide +kernel)⟩

theorem type_eq {y : Symbol} {t : Ty} (hy : store.table.symbol? 0 = some y) (ht : y.type = some t) :
    t = old := by
  have hbind : (store.table.symbol? 0).bind (·.type) = some old := by decide +kernel
  rw [hy] at hbind
  exact Option.mem_unique ht hbind

end Leftover

/-- `(a, int)` stays what it is when the symbol is to become a `bool`. -/
theorem failed_setType_keeps_types_bool : ((setType 0 .bool default).run Leftover.store).1 ≠ [] ∧
      ((Registry.resolve Leftover.old).run
        ((setType 0 .bool default).run Leftover.store).2.registry).1 =
        ((Registry.resolve Leftover.old).run Leftover.store.registry).1 := by
  have hfails : ((setType 0 .bool default).run Leftover.store).1 ≠ [] := by decide +kernel
  have hholds : Leftover.store.registry.Holds Leftover.old := by decide +kernel
  have hkeeps := (failed_setType_keeps_types Leftover.reachable
    (fun _ _ hy ht => Leftover.type_eq hy ht ▸ hholds)
    (by decide +kernel) Prod.mk.eta.symm hfails).2
  rcases hkeeps Leftover.old hholds with heq | ⟨y, old, v, hy, ht, hlab, _⟩
  · exact ⟨hfails, heq⟩
  · rw [Leftover.type_eq hy ht] at hlab
    exact absurd hlab (by decide +kernel)

/-- **The type of a symbol changes although it is not given a new one**: `(a, int)` is resolved to
`(string, int)` once it has failed to become `(string, string)`. -/
theorem failed_setType_binds : ((setType 0 Leftover.new default).run Leftover.store).1 ≠ [] ∧
      ((Registry.resolve Leftover.old).run Leftover.store.registry).1 = Leftover.old ∧
      ((Registry.resolve Leftover.old).run
        ((setType 0 Leftover.new default).run Leftover.store).2.registry).1 =
        .tuple [.string, .int] := by
  decide +kernel

/-! ## Operands -/

section

variable {s : Store}

/-- Without free variables, compatible operands are those of which one widens to the other. -/
theorem assignableEither_iff (h : s.registry.Consistent) {a b : Ty} (ha : s.registry.Holds a)
    (hb : s.registry.Holds b) :
    ((assignableEither a b).run s).1 = true ↔ Widens (s.registry.applied a) (s.registry.applied b) ∨
        Widens (s.registry.applied b) (s.registry.applied a) := by
  have hset := h.assignable_settled ha hb
  have hiff := hset.consistent.assignable_iff (hset.grows.holds hb) (hset.grows.holds ha)
  rw [hset.grows.applied, hset.grows.applied] at hiff
  unfold assignableEither
  rw [onRegistry_bind_run, ← h.assignable_iff ha hb, ← hiff]
  generalize (Registry.assignable a b).run s.registry = o
  obtain ⟨_ | _, r⟩ := o
  · exact ⟨.inr, fun h => h.resolve_left Bool.false_ne_true⟩
  · exact ⟨fun _ => .inl rfl, fun _ => rfl⟩

theorem compatible_run (s : Store) (a b : Ty) : (compatible a b).run s =
      (if s.registry.hasFree a || s.registry.hasFree b then do
        if (← onRegistry (Registry.unifyAssignable a b).run).isOk then return true
        if (← onRegistry (Registry.unifyAssignable b a).run).isOk then return true
        assignableEither a b
      else assignableEither a b).run s :=
  rfl

theorem compatible_known {a b : Ty} (ha : s.registry.hasFree a = false)
    (hb : s.registry.hasFree b = false) :
    (compatible a b).run s = (assignableEither a b).run s := by
  rw [compatible_run, ha, hb, if_neg (by decide)]

/-- With a free variable the two assignments are tried one after the other, the second one in the
registry that the first one leaves. -/
theorem compatible_free {a b : Ty} (hfree : (s.registry.hasFree a || s.registry.hasFree b) = true) :
    ((compatible a b).run s).1 = true ↔ Succeeds s.registry a b ∨
    Succeeds (afterAttempt s.registry a b) b a ∨
      ((assignableEither a b).run
        { s with registry := afterAttempt (afterAttempt s.registry a b) b a }).1 = true := by
  have hok : ∀ o : Except UnifyFault Unit, o.isOk = true ↔ o = .ok () := by
    rintro (_ | _) <;> simp [Except.isOk, Except.toBool]
  rw [compatible_run, if_pos hfree, onRegistry_bind_run, Succeeds, ← hok]
  split
  · next h => exact ⟨fun _ => .inl h, fun _ => rfl⟩
  next h =>
    rw [onRegistry_bind_run, Succeeds, ← hok]
    split
    · next h' => exact ⟨fun _ => .inr (.inl h'), fun _ => rfl⟩
    · next h' => exact ((or_iff_right h).trans (or_iff_right h')).symm

/-- **Compatibility** of operands of which one has a free variable, and that are not tuples of one
length: it is enough for an assignment to succeed either way, without regard to the other way. -/
theorem compatible_iff_succeeds (h : s.registry.Consistent) {a b : Ty} (ha : s.registry.Holds a)
    (hb : s.registry.Holds b) (hfree : (s.registry.hasFree a || s.registry.hasFree b) = true)
    (hap : Apart (s.registry.applied a) (s.registry.applied b)) :
    ((compatible a b).run s).1 = true ↔ Succeeds s.registry a b ∨ Succeeds s.registry b a := by
  rw [compatible_free hfree]
  generalize hr : s.registry = r at *
  have hev : r.Evolves (afterAttempt r a b) := h.unifyAssignable_evolves ha hb
  have hready : Ready r [b] [a] := .pair h hb ha
  have hready' : Ready (afterAttempt r a b) [b] [a] :=
    .pair hev.consistent (hev.extends_.holds hb) (hev.extends_.holds ha)
  have hev' : (afterAttempt r a b).Evolves (afterAttempt (afterAttempt r a b) b a) :=
    hev.consistent.unifyAssignable_evolves hready'.holds_left hready'.holds_right
  by_cases hok : Succeeds r a b
  · exact ⟨fun _ => .inl hok, fun _ => .inl hok⟩
  rw [or_iff_right hok, or_iff_right hok,
    assignableEither_iff hev'.consistent (hev'.extends_.holds (hev.extends_.holds ha))
      (hev'.extends_.holds (hev.extends_.holds hb))]
  -- the other way round it succeeds now exactly if it did before
  have hback : Succeeds r b a → Succeeds (afterAttempt r a b) b a := fun hok' =>
    hok'.of_bindings hready hready' (hok'.grows_swap hready hap.symm hok).bindings hap.symm
  refine ⟨fun hor => ?_, fun hok' => .inl (hback hok')⟩
  rcases h.attempt_error_cases ha hb hap hok with hg | ⟨href, href'⟩
  · have hap' : Apart ((afterAttempt r a b).applied b) ((afterAttempt r a b).applied a) := by
      rw [hg.applied, hg.applied]
      exact hap.symm
    by_cases hok' : Succeeds (afterAttempt r a b) b a
    · exact hok'.of_bindings hready' hready hg.bindings.symm hap'
    have hw := hor.resolve_left hok'
    rcases hready'.consistent.attempt_error_cases hready'.holds_left
      hready'.holds_right hap' hok' with
      hg' | ⟨href, href'⟩
    · -- nothing was bound, so that the assignments were allowed before
      rw [hg'.applied, hg'.applied] at hw
      rcases hw with hw | hw
      · rw [hg.applied, hg.applied] at hw
        exact absurd (h.unifyAssignable_of_widens ha hb hw) hok
      · exact absurd (hready'.consistent.unifyAssignable_of_widens hready'.holds_left
          hready'.holds_right hw) hok'
    · exact absurd hw (not_or.mpr ⟨href'.no, href.no⟩)
  · obtain ⟨hno, hg⟩ := href'.fails hready'
    rw [hg.applied, hg.applied] at hor
    exact absurd (hor.resolve_left hno) (not_or.mpr ⟨href.no, href'.no⟩)

theorem equality_accepts_iff (s : Store) (op : Operator) (pos : Position) (a b : Ty) :
    ((equality op pos a b).run s).1.faults = [] ↔ ((compatible a b).run s).1 = true := by
  have hrun : (equality op pos a b).run s =
    (if ((compatible a b).run s).1 then pure { type := .bool }
        else pure (operatorMismatch op pos a b) : CheckM Typed).run ((compatible a b).run s).2 :=
          rfl
  rw [hrun]
  split
  · next h => exact ⟨fun _ => h, fun _ => rfl⟩
  · next h => exact ⟨fun hnone => (by cases hnone), fun h' => absurd h' h⟩

/-- **The order of operands does not matter** if they have no free variables or are not tuples of
one length: they are compatible exactly if an assignment succeeds one way or the other. -/
theorem compatible_symmetric (h : s.registry.Reachable) {a b : Ty} (ha : s.registry.Holds a)
    (hb : s.registry.Holds b)
    (hpair : (s.registry.hasFree a = false ∧ s.registry.hasFree b = false) ∨
      Apart (s.registry.applied a) (s.registry.applied b)) :
    (((compatible a b).run s).1 = true ↔
      ((Registry.unifyAssignable a b).run.run s.registry).1 = .ok () ∨
        ((Registry.unifyAssignable b a).run.run s.registry).1 = .ok ()) ∧
    ((compatible a b).run s).1 = ((compatible b a).run s).1 ∧
    ∀ op pos, ((equality op pos a b).run s).1.faults = [] ↔
      ((equality op pos b a).run s).1.faults = [] := by
  have hc := h.consistent
  have hiff : ∀ {a b : Ty}, s.registry.Holds a → s.registry.Holds b →
      ((s.registry.hasFree a = false ∧ s.registry.hasFree b = false) ∨
        Apart (s.registry.applied a) (s.registry.applied b)) →
      (((compatible a b).run s).1 = true ↔ Succeeds s.registry a b ∨ Succeeds s.registry b a) := by
    intro a b ha hb hpair
    by_cases hfree : (s.registry.hasFree a || s.registry.hasFree b) = true
    · refine compatible_iff_succeeds hc ha hb hfree (hpair.resolve_left fun hno => ?_)
      rw [hno.1, hno.2] at hfree
      cases hfree
    · obtain ⟨hfa, hfb⟩ := Bool.or_eq_false_iff.mp (Bool.eq_false_iff.mpr hfree)
      rw [compatible_known hfa hfb, assignableEither_iff hc ha hb, Succeeds, Succeeds,
        (hc.unifyAssignable_quiet ha hb hfa hfb).1, (hc.unifyAssignable_quiet hb ha hfb hfa).1]
  have hswap : ((compatible a b).run s).1 = ((compatible b a).run s).1 := by
    rw [Bool.eq_iff_iff, hiff ha hb hpair, hiff hb ha (hpair.imp And.symm Apart.symm), or_comm]
  refine ⟨hiff ha hb hpair, hswap, fun op pos => ?_⟩
  rw [equality_accepts_iff, equality_accepts_iff, hswap]

end

namespace Leftover

/-! References `&[a]` and `&mut [int]`; tuples `(a, float, a)` and `(never, int, int)`. -/

def shared : Ty := .ref (.array (.var Sample.a) none) false none

def mutable : Ty := .ref (.array .int none) true none

def made : Ty := .tuple [.var Sample.a, .float, .var Sample.a]

def given : Ty := .tuple [.never, .int, .int]

def operands : Store where
  registry := performAll [.newVar "a" false, .register shared, .register mutable, .register made,
    .register given] (Registry.empty 0)

theorem reachable_operands : operands.registry.Reachable :=
  ⟨0, later_performAll (by decide +kernel)⟩

end Leftover

/-- `&mut [int]` goes with `&[a]`, although it must not be used as a mutable reference to `[a]`. -/
theorem compatible_symmetric_references :
    Apart (Leftover.operands.registry.applied Leftover.mutable)
        (Leftover.operands.registry.applied Leftover.shared) ∧
      ((compatible Leftover.mutable Leftover.shared).run Leftover.operands).1 =
        ((compatible Leftover.shared Leftover.mutable).run Leftover.operands).1 ∧
      ((compatible Leftover.mutable Leftover.shared).run Leftover.operands).1 = true := by
  have hap : Apart (Leftover.operands.registry.applied Leftover.mutable)
      (Leftover.operands.registry.applied Leftover.shared) := fun n hn => by cases hn
  exact ⟨hap, (compatible_symmetric Leftover.reachable_operands (by decide +kernel)
    (by decide +kernel) (.inr hap)).2.1, by decide +kernel⟩

/-- **The order of tuples matters**: `(a, float, a)` goes with `(never, int, int)`, but not the
other way round. The first attempt then binds `a` to `never` before it fails on `int` and `float`,
and the second one fails on `never` and `int`. -/
theorem compatible_depends_on_order :
    ((compatible Leftover.made Leftover.given).run Leftover.operands).1 = true ∧
      ((compatible Leftover.given Leftover.made).run Leftover.operands).1 = false := by
  decide +kernel

end Checking

end UnitCheck
