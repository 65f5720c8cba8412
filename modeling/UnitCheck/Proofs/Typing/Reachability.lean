import UnitCheck.Proofs.Typing.Assigning
import UnitCheck.Typing.Convert

/-!
# Registries in use

A `Request` is a call of the library on types of one registry, and `Step` the change that a call
makes, whether it returns a result or a fault. `Reachable` registries come out of an empty one by
such steps.

* `Request.performs` — what one step does: a consistent registry stays consistent, keeps its types
  in their places and keeps its bindings; new ones are of variables that the operands lead to.
* `Later.evolves`, `Reachable.consistent` — the same for every run.
-/

namespace UnitCheck

open Ty Relation List

namespace Registry

variable {r r' : Registry} {q : Request}

/-! ## Converting annotations -/

/-- What a conversion that started with `r` has to leave behind; `Q` tells of its result. -/
structure Converted {α : Type} (Q : Registry → α → Prop) (r : Registry)
    (out : Except Diagnostic α × Registry) : Prop extends Settled r out.2 where
  result : ∀ a, out.1 = .ok a → Q out.2 a

section

variable {α β : Type} {Q : Registry → α → Prop} {Q' : Registry → β → Prop}

theorem Converted.andThen {o : Except Diagnostic α × Registry}
    {f : α → Registry → Except Diagnostic β × Registry} (ho : Converted Q r o)
    (hf : ∀ a r', r'.Consistent → r.Grows r' → Q r' a → Converted Q' r' (f a r')) :
    Converted Q' r (andThen o f) := by
  obtain ⟨e | a, r'⟩ := o
  · exact ⟨ho.toSettled, fun _ h => (by cases h)⟩
  · have hnext := hf a r' ho.consistent ho.grows (ho.result a rfl)
    exact ⟨ho.toSettled.trans hnext.toSettled, hnext.result⟩

theorem Converted.ok (h : r.Consistent) {a : α} (ha : Q r a) : Converted Q r (.ok a, r) :=
  ⟨Settled.refl h, fun _ hb => Except.ok.inj hb ▸ ha⟩

theorem Converted.error (h : r.Consistent) (d : Diagnostic) : Converted Q r (.error d, r) :=
  ⟨Settled.refl h, fun _ hb => (by cases hb)⟩

end

/-- Registering a type over registered parts. -/
theorem Consistent.register_parts (h : r.Consistent) {t : Ty} (hnv : ∀ v, t ≠ .var v)
    (ht : ∀ u ∈ t.parts, r.Holds u) : r.Settled ((register t).run r).2 ∧
      ((register t).run r).1 = t.tidy ∧
      ((register t).run r).2.Holds ((register t).run r).1 := by
  have hspans : r.Spans t := by
    intro v hm
    obtain ⟨u, hu, hmu⟩ := (mentions_iff_parts hnv).mp hm
    exact h.spans (ht u hu) v hmu
  have hreg := register_run h.toInterned hspans
  refine ⟨hreg.settled h, hreg.type_eq, ?_⟩
  rw [hreg.type_eq]
  exact hreg.holds

theorem Converted.register (h : r.Consistent) {t : Ty} (hnv : ∀ v, t ≠ .var v)
    (ht : ∀ u ∈ t.parts, r.Holds u) :
    Converted Holds r ((liftM (register t) : ExceptT Diagnostic RegistryM Ty).run.run r) := by
  obtain ⟨hsettled, -, hholds⟩ := h.register_parts hnv ht
  exact ⟨hsettled, fun _ hu => Except.ok.inj hu ▸ hholds⟩

theorem Converted.name (h : r.Consistent) (path : List String) {args : List Ty}
    (hargs : ∀ a ∈ args, r.Holds a) (pos : Position) :
    Converted Holds r ((TypeExpr.convertName converter path args pos).run.run r) := by
  have hnamed : Converted Holds r ((converter.named path args pos).run.run r) :=
    Converted.register h (by simp) (by simpa [parts] using hargs)
  unfold TypeExpr.convertName
  split
  · split
    next b _ =>
      split
      · exact Converted.ok h (h.basic b)
      · exact Converted.error h _
    · exact hnamed
  · exact hnamed

mutual

/-- A conversion keeps the registry, and what it returns is registered. -/
theorem convert_run (e : TypeExpr) {r : Registry} (h : r.Consistent) :
    Converted Holds r ((e.convert converter).run.run r) := by
  match e with
  | .named path args pos =>
    rw [TypeExpr.convert]
    split
    · exact Converted.error h _
    · beta_reduce
      rw [run_bind]
      exact (convertAll_run args h).andThen fun _ _ h' _ hargs => Converted.name h' path hargs pos
  | .array elem length pos =>
    rw [TypeExpr.convert, run_bind]
    refine (convert_run elem h).andThen fun t r' h' _ ht => ?_
    have hreg : ∀ n, Converted Holds r'
        ((liftM (converter.register (.array t n)) : ExceptT Diagnostic RegistryM Ty).run.run r') :=
      fun n => Converted.register h' (by simp) (by simpa [parts] using ht)
    split
    · exact hreg none
    · split
      · exact Converted.error h' _
      · exact hreg _
  | .tuple elems pos =>
    rw [TypeExpr.convert, run_bind]
    exact (convertAll_run elems h).andThen fun _ _ h' _ hts =>
      Converted.register h' (by simp) (by simpa [parts] using hts)
  | .func params result pos =>
    rw [TypeExpr.convert, run_bind]
    refine (convertAll_run params h).andThen fun ps r' h' _ hps => ?_
    rw [run_bind]
    refine (convertResult_run result h').andThen fun t r'' h'' hg ht => ?_
    refine Converted.register h'' (by simp) ?_
    intro u hu
    rcases mem_append.mp hu with hu | hu
    · exact hg.holds (hps u hu)
    · rwa [mem_singleton.mp hu]
  | .ref inner m l pos =>
    rw [TypeExpr.convert, run_bind]
    exact (convert_run inner h).andThen fun _ _ h' _ ht =>
      Converted.register h' (by simp) (by simpa [parts] using ht)

theorem convertAll_run (es : List TypeExpr) {r : Registry} (h : r.Consistent) :
    Converted (fun r ts => ∀ t ∈ ts, r.Holds t) r
      ((TypeExpr.convertAll converter es).run.run r) := by
  match es with
  | [] =>
    rw [TypeExpr.convertAll]
    exact Converted.ok h (by simp)
  | e :: es =>
    rw [TypeExpr.convertAll, run_bind]
    refine (convert_run e h).andThen fun t r' h' _ ht => ?_
    rw [run_bind]
    refine (convertAll_run es h').andThen fun ts r'' h'' hg hts => ?_
    exact Converted.ok h'' (forall_mem_cons.mpr ⟨hg.holds ht, hts⟩)

theorem convertResult_run (e : Option TypeExpr) {r : Registry} (h : r.Consistent) :
    Converted Holds r ((TypeExpr.convertResult converter e).run.run r) := by
  match e with
  | none =>
    rw [TypeExpr.convertResult]
    exact Converted.ok h (h.basic .unit)
  | some e =>
    rw [TypeExpr.convertResult]
    exact convert_run e h

end

/-! ## Requests -/

/-- A call of the library. -/
inductive Request where
  | register (t : Ty)
  | newVar (hint : String) (rigid : Bool)
  | resolve (t : Ty)
  | instantiate (t : Ty) (params : List TypeVar)
  | instantiateAll (ts : List Ty) (params : List TypeVar)
  | unify (a b : Ty)
  | assignable (dst src : Ty)
  | unifyAssignable (dst src : Ty)
  | convert (e : TypeExpr)

namespace Request

/-- Makes a call, with no regard to its result or fault. -/
def perform : Request → RegistryM Unit
  | register t => discard (Registry.register t)
  | newVar hint rigid => discard (Registry.newVar hint rigid)
  | resolve t => discard (Registry.resolve t)
  | instantiate t params => discard (Registry.instantiate t params)
  | instantiateAll ts params => discard (Registry.instantiateAll ts params)
  | unify a b => discard (Registry.unify a b).run
  | assignable dst src => discard (Registry.assignable dst src)
  | unifyAssignable dst src => discard (Registry.unifyAssignable dst src).run
  | convert e => discard (Registry.convert e).run

/-- A call about types of the registry. What is to be registered need not be registered, but is made
over variables that are. -/
def About (r : Registry) : Request → Prop
  | register t => r.Spans t
  | newVar .. | convert _ => True
  | resolve t | instantiate t _ => r.Holds t
  | instantiateAll ts _ => ∀ t ∈ ts, r.Holds t
  | unify a b | assignable a b | unifyAssignable a b => r.Holds a ∧ r.Holds b

instance (r : Registry) (t : Ty) : Decidable (r.Holds t) := inferInstanceAs (Decidable (_ ∈ _))

instance (r : Registry) (t : Ty) : Decidable (r.Spans t) :=
  decidable_of_iff (t.anyVar (fun v => !decide (r.Holds (.var v))) = false) (by
    rw [← Bool.not_eq_true, anyVar_iff]
    simp [Spans])

instance (r : Registry) : (q : Request) → Decidable (q.About r)
  | register t => inferInstanceAs (Decidable (r.Spans t))
  | newVar .. | convert _ => inferInstanceAs (Decidable True)
  | resolve t | instantiate t _ => inferInstanceAs (Decidable (r.Holds t))
  | instantiateAll ts _ => inferInstanceAs (Decidable (∀ t ∈ ts, r.Holds t))
  | unify a b | assignable a b | unifyAssignable a b =>
    inferInstanceAs (Decidable (r.Holds a ∧ r.Holds b))

/-- The types that a call unifies. -/
def operands : Request → List Ty
  | unify a b | unifyAssignable a b => [a, b]
  | _ => []

/-- **What one call does.** All that was there stays, and only variables that its operands lead to
are bound. -/
theorem performs (h : r.Consistent) (hq : q.About r) :
    r.Evolves (q.perform.run r).2 ∧ ∀ {S : TypeVar → Prop}, r.Closed (AllVars S) →
      (∀ t ∈ q.operands, t.AllVars S) → BindsOnly (AllVars S) r (q.perform.run r).2 := by
  have hsettled : ∀ {r'}, r.Settled r' → r.Evolves r' ∧ ∀ {S : TypeVar → Prop},
      r.Closed (AllVars S) → (∀ t ∈ q.operands, t.AllVars S) → BindsOnly (AllVars S) r r' :=
    fun hs => ⟨hs.evolves, fun hc _ => .grows hc hs.grows⟩
  cases q with
  | register t => exact hsettled ((register_run h.toInterned hq).settled h)
  | newVar hint rigid => exact hsettled (h.newVar hint rigid)
  | resolve t => exact hsettled (h.resolve_run hq).toSettled
  | instantiate t params => exact hsettled (h.instantiate_settled hq params).1
  | instantiateAll ts params => exact hsettled (h.instantiateAll_settled hq params).1
  | assignable dst src => exact hsettled (h.assignable_settled hq.1 hq.2)
  | convert e => exact hsettled (convert_run e h).toSettled
  | unify a b =>
    refine ⟨h.unify_evolves hq.1 hq.2, fun hc hS => ?_⟩
    obtain ⟨ha, hb, _⟩ := forall_mem_cons.mp hS |>.imp_right forall_mem_cons.mp
    exact (unify_runs h hq.1 hq.2).bindsOnly (.pair h hq.1 hq.2) hc
      (forall_mem_singleton.mpr ha) (forall_mem_singleton.mpr hb)
  | unifyAssignable dst src =>
    have has := h.assigned hq.1 hq.2
    refine ⟨has.evolves, fun hc hS => ?_⟩
    obtain ⟨hd, hs, _⟩ := forall_mem_cons.mp hS |>.imp_right forall_mem_cons.mp
    exact has.binds hc (forall_mem_singleton.mpr hd) (forall_mem_singleton.mpr hs)

theorem evolves (h : r.Consistent) (hq : q.About r) : r.Evolves (q.perform.run r).2 :=
  (performs h hq).1

end Request

/-- One call on types of the registry. -/
def Step (r r' : Registry) : Prop := ∃ q : Request, q.About r ∧ r' = (q.perform.run r).2

/-- `r'` comes after `r` in a run. -/
def Later (r r' : Registry) : Prop := ReflTransGen Step r r'

/-- A registry that comes out of an empty one. -/
def Reachable (r : Registry) : Prop := ∃ number, (empty number).Later r

theorem Later.evolves (h : r.Consistent) (hl : r.Later r') : r.Evolves r' := by
  induction hl with
  | refl => exact Evolves.refl h
  | tail _ hstep ih =>
    obtain ⟨q, hq, rfl⟩ := hstep
    exact ih.trans (q.evolves ih.consistent hq)

/-- A new registry is consistent: nothing is bound yet. -/
theorem consistent_empty (number : Nat) : (empty number).Consistent := by
  refine ⟨interned_empty number, fun hm => (by cases hm), fun hm => (by cases hm), ?_⟩
  -- with no bindings every step goes to a smaller type
  intro t hcycle
  have hsize : ∀ {t u : Ty}, TransGen (empty number).Child t u → u.size < t.size := by
    intro t u hwalk
    induction hwalk with
    | single hc =>
      cases hc with
      | part hu => exact size_lt_of_mem_parts hu
      | bound hb => cases hb
    | tail _ hc ih =>
      cases hc with
      | part hu => exact (size_lt_of_mem_parts hu).trans ih
      | bound hb => cases hb
  exact lt_irrefl _ (hsize hcycle)

/-- **Every registry in use is consistent.** -/
theorem Reachable.consistent (h : r.Reachable) : r.Consistent := by
  obtain ⟨number, hrun⟩ := h
  exact (hrun.evolves (consistent_empty number)).consistent

theorem Reachable.later (h : r.Reachable) (hl : r.Later r') : r'.Reachable := by
  obtain ⟨number, hrun⟩ := h
  exact ⟨number, hrun.trans hl⟩

/-! ## Runs that can be checked -/

/-- Makes calls one after the other. -/
def performAll (qs : List Request) (r : Registry) : Registry :=
  qs.foldl (fun r q => (q.perform.run r).2) r

/-- Each call is about types of the registry that it finds. -/
def AboutAll (r : Registry) : List Request → Prop
  | [] => True
  | q :: qs => q.About r ∧ AboutAll (q.perform.run r).2 qs

instance : (qs : List Request) → (r : Registry) → Decidable (AboutAll r qs)
  | [], _ => inferInstanceAs (Decidable True)
  | q :: qs, r =>
    have := instDecidableAboutAll qs (q.perform.run r).2
    inferInstanceAs (Decidable (q.About r ∧ AboutAll (q.perform.run r).2 qs))

theorem later_performAll {qs : List Request} (h : AboutAll r qs) : r.Later (performAll qs r) := by
  induction qs generalizing r with
  | nil => exact ReflTransGen.refl
  | cons q qs ih => exact ReflTransGen.head ⟨q, h.1, rfl⟩ (ih h.2)

namespace Sample

/-! A small registry: two variables `a` and `b`, a type parameter `T`, and the tuples `(a, [b])` and
`(&'l T, [int])`. -/

def a : TypeVar := { id := 8, hint := "a", rigid := false }

def b : TypeVar := { id := 9, hint := "b", rigid := false }

def param : TypeVar := { id := 10, hint := "T", rigid := true }

def left : Ty := .tuple [.var a, .array (.var b) none]

def right : Ty := .tuple [.ref (.var param) false (some "l"), .array .int none]

def requests : List Request :=
  [.newVar "a" false, .newVar "b" false, .newVar "T" true, .register left, .register right]

def registry : Registry := performAll requests (empty 0)

theorem reachable : registry.Reachable := ⟨0, later_performAll (by decide +kernel)⟩

theorem holds_left : registry.Holds left := by decide +kernel

theorem holds_right : registry.Holds right := by decide +kernel

end Sample

end Registry

end UnitCheck
