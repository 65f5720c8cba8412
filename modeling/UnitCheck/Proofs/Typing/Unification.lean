import UnitCheck.Proofs.Outcome
import UnitCheck.Proofs.Typing.Resolution

/-!
# Runs of the unifier

The unifier carries a bound on its depth and runs in a monad. `UnifyRun` is the same computation as
a relation, without the bound: what two lists of types are unified to, from which registry to which.
Every run of `unify` on registered types is such a run (`unify_runs`), so that what follows about
unification is proved by induction over `UnifyRun`.

* `Settles` — the cases that are decided at the heads: equal heads, a broken type, a variable that
  is bound or must not be, and heads that cannot be made equal.
* `Decomposes` — the remaining case: heads with one label, unified part by part.
* `UnifyRun.preserves` — a run keeps the registry consistent and only adds to it, whether it
  succeeds or fails half-way.
* `UnifyRun.closed` — a run binds variables only to types that its operands lead to.
-/

namespace UnitCheck

open Ty Relation List

namespace Registry

variable {a b t u : Ty} {r r' r₀ : Registry} {as bs : List Ty} {P : Ty → Prop}
  {out : Except UnifyFault (List Ty)}
  {n : Nat} {us : List Ty} {o : Except UnifyFault Ty × Registry} {v : TypeVar} {e : UnifyFault}

/-! ## One level of the unifier -/

/-- The variable to be bound, and to what, when two heads meet: the left one before the right one, a
rigid one never. -/
def target? (a b : Ty) : Option (TypeVar × Ty) :=
  match a, b with
  | .var v, .var w =>
    if !v.rigid then some (v, b) else if !w.rigid then some (w, a) else none
  | .var v, _ => if !v.rigid then some (v, b) else none
  | _, .var w => if !w.rigid then some (w, a) else none
  | _, _ => none

/-- The type of two heads with one label whose parts have been unified. -/
def joined (a b : Ty) (us : List Ty) : Ty := a.rebuild (a.lifetime <|> b.lifetime) us

theorem unifyAll_cons_run (part : Ty → Ty → UnifyM Ty) (a b : Ty) (as bs : List Ty) (r : Registry) :
    (unifyAll part (a :: as) (b :: bs)).run.run r = andThen ((part a b).run.run r) fun u r₁ =>
        andThen ((unifyAll part as bs).run.run r₁) fun us r₂ => (.ok (u :: us), r₂) := by
  rw [unifyAll, run_bind]
  congr 1
  funext u r₁
  rw [run_bind]
  rfl

/-- Lists are unified from the front: the last pair comes last, in the registry that those before it
lead to. -/
theorem unifyAll_concat_run (part : Ty → Ty → UnifyM Ty) (x y : Ty) {xs ys : List Ty}
    (h : xs.length = ys.length) (r : Registry) : (unifyAll part (xs ++ [x]) (ys ++ [y])).run.run r =
      andThen ((unifyAll part xs ys).run.run r) fun us r₁ =>
        andThen ((part x y).run.run r₁) fun u r₂ => (.ok (us ++ [u]), r₂) := by
  induction xs generalizing ys r with
  | nil =>
    obtain rfl : ys = [] := length_eq_zero_iff.mp h.symm
    exact unifyAll_cons_run part x y [] [] r
  | cons a as ih =>
    cases ys with
    | nil => cases h
    | cons b bs =>
      have hlen : as.length = bs.length := Nat.succ.inj h
      rw [cons_append, cons_append, unifyAll_cons_run, unifyAll_cons_run, andThen_assoc]
      congr 1
      funext u r₁
      rw [ih hlen, andThen_assoc, andThen_assoc]
      congr 1
      funext us r₂
      rw [andThen_assoc]
      rfl

theorem unifyAll_one_run (part : Ty → Ty → UnifyM Ty) (x y : Ty) (r : Registry) :
    (unifyAll part [x] [y]).run.run r = andThen ((part x y).run.run r) fun u r₁ => (.ok [u], r₁) :=
  unifyAll_cons_run part x y [] [] r

/-- Heads with different labels cannot be made equal. -/
theorem unifyParts_of_label_ne (part : Ty → Ty → UnifyM Ty) (h : a.label ≠ b.label) :
    unifyParts part a b = failMismatch a b := by
  cases a with
  | array x m =>
    cases b with
    | array y n => exact if_neg fun hm => h (congrArg Label.array hm)
    | _ => rfl
  | tuple xs =>
    cases b with
    | tuple ys => exact if_neg fun hlen => h (congrArg Label.tuple hlen)
    | _ => rfl
  | func xs x =>
    cases b with
    | func ys y => exact if_neg fun hlen => h (congrArg Label.func hlen)
    | _ => rfl
  | ref x m l =>
    cases b with
    | ref y n k => exact if_neg fun hm => h (congrArg Label.ref hm)
    | _ => rfl
  | named x xs =>
    cases b with
    | named y ys => exact if_neg fun hboth => h (by rw [label, label, hboth.1, hboth.2])
    | _ => rfl
  | _ => rfl

/-- Heads with one label are unified part by part. -/
theorem unifyParts_run (part : Ty → Ty → UnifyM Ty) (hne : a ≠ b) (hlab : a.label = b.label)
    (r : Registry) :
    (unifyParts part a b).run.run r =
      andThen ((unifyAll part a.parts b.parts).run.run r) fun us r₁ =>
        (.ok ((register (joined a b us)).run r₁).1, ((register (joined a b us)).run r₁).2) := by
  -- heads of basic types and variables with one label are equal; the others have parts
  cases a with
  | basic x => exact absurd (eq_basic_of_label hlab.symm).symm hne
  | var v => exact absurd (eq_var_of_label hlab.symm).symm hne
  | array x m =>
    cases b with
    | array y n =>
      have hun : unifyParts part (.array x m) (.array y n) =
          (do register (.array (← part x y) m) : UnifyM Ty) := if_pos (Label.array.inj hlab)
      rw [hun, run_bind, parts, parts, unifyAll_one_run, andThen_assoc]
      rfl
    | _ => cases hlab
  | ref x m l =>
    cases b with
    | ref y n k =>
      have hun : unifyParts part (.ref x m l) (.ref y n k) =
          (do register (.ref (← part x y) m (l <|> k)) : UnifyM Ty) :=
        if_pos (Label.ref.inj hlab)
      rw [hun, run_bind, parts, parts, unifyAll_one_run, andThen_assoc]
      rfl
    | _ => cases hlab
  | tuple xs =>
    cases b with
    | tuple ys =>
      have hun : unifyParts part (.tuple xs) (.tuple ys) =
          (do register (.tuple (← unifyAll part xs ys)) : UnifyM Ty) :=
        if_pos (Label.tuple.inj hlab)
      rw [hun, run_bind]
      rfl
    | _ => cases hlab
  | named x xs =>
    cases b with
    | named y ys =>
      have hun : unifyParts part (.named x xs) (.named y ys) =
          (do register (.named x (← unifyAll part xs ys)) : UnifyM Ty) :=
        if_pos (Label.named.inj hlab)
      rw [hun, run_bind]
      rfl
    | _ => cases hlab
  | func xs x =>
    cases b with
    | func ys y =>
      have hlen : xs.length = ys.length := Label.func.inj hlab
      have hun : unifyParts part (.func xs x) (.func ys y) =
          (do
            let params ← unifyAll part xs ys
            let result ← part x y
            register (.func params result) : UnifyM Ty) := if_pos hlen
      rw [hun, run_bind, parts, parts, unifyAll_concat_run part x y hlen, andThen_assoc]
      congr 1
      funext us r₁
      rw [run_bind, andThen_assoc]
      congr 1
      funext u r₂
      have hjoin : joined (.func xs x) (.func ys y) (us ++ [u]) = .func us u := by
        simp [joined, rebuild]
      simp only [andThen, hjoin]
      rfl
    | _ => cases hlab

/-! ## Runs as a relation -/

/-- What can be said of two heads at once: the outcome and the registry it leaves. -/
inductive Settles (r : Registry) : Ty → Ty → Except UnifyFault Ty → Registry → Prop where
  | same (a : Ty) : Settles r a a (.ok a) r
  | broken {a b : Ty} (hne : a ≠ b) (h : a = .invalid ∨ b = .invalid) :
    Settles r a b (.ok .invalid) r
  | bound {a b : Ty} (v : TypeVar) (t : Ty) (hne : a ≠ b) (ha : a ≠ .invalid) (hb : b ≠ .invalid)
      (ht : target? a b = some (v, t)) (hocc : r.occurs v t = false) :
      Settles r a b (.ok t) (r.assign v t)
  | recursive {a b u : Ty} {r' : Registry} (v : TypeVar) (t : Ty) (hne : a ≠ b)
      (ha : a ≠ .invalid) (hb : b ≠ .invalid) (ht : target? a b = some (v, t))
      (hocc : r.occurs v t = true) (hrun : (resolve t).run r = (u, r')) :
      Settles r a b (.error (.recursive v u)) r'
  | clash {a b : Ty} {e : UnifyFault} {r' : Registry} (hne : a ≠ b) (ha : a ≠ .invalid)
      (hb : b ≠ .invalid) (ht : target? a b = none) (hlab : a.label ≠ b.label)
      (hrun : (failMismatch (α := Ty) a b).run.run r = (.error e, r')) :
      Settles r a b (.error e) r'

/-- Two heads that are unified part by part. -/
structure Decomposes (a b : Ty) : Prop where
  ne : a ≠ b
  left_ne : a ≠ .invalid
  right_ne : b ≠ .invalid
  target : target? a b = none
  label : a.label = b.label

/-- Unifying two lists of types, pair by pair, from one registry to another. A failure ends the run
and keeps the registry that was reached. -/
inductive UnifyRun : Registry → List Ty → List Ty → Except UnifyFault (List Ty) → Registry → Prop
    where
  | nil (r : Registry) : UnifyRun r [] [] (.ok []) r
  | settled {r r₁ r₂ : Registry} {a b u : Ty} {as bs : List Ty}
      {out : Except UnifyFault (List Ty)} (h : Settles r (r.head a) (r.head b) (.ok u) r₁)
      (rest : UnifyRun r₁ as bs out r₂) :
      UnifyRun r (a :: as) (b :: bs) (out.map (u :: ·)) r₂
  | failed {r r₁ : Registry} {a b : Ty} {as bs : List Ty} {e : UnifyFault}
      (h : Settles r (r.head a) (r.head b) (.error e) r₁) :
      UnifyRun r (a :: as) (b :: bs) (.error e) r₁
  | parts {r r₁ r₂ : Registry} {a b : Ty} {as bs us : List Ty}
      {out : Except UnifyFault (List Ty)} (h : Decomposes (r.head a) (r.head b))
      (inner : UnifyRun r (r.head a).parts (r.head b).parts (.ok us) r₁)
      (rest : UnifyRun (r₁.add (joined (r.head a) (r.head b) us)) as bs out r₂) :
      UnifyRun r (a :: as) (b :: bs) (out.map (joined (r.head a) (r.head b) us :: ·)) r₂
  | partsFailed {r r₁ : Registry} {a b : Ty} {as bs : List Ty} {e : UnifyFault}
      (h : Decomposes (r.head a) (r.head b))
      (inner : UnifyRun r (r.head a).parts (r.head b).parts (.error e) r₁) :
      UnifyRun r (a :: as) (b :: bs) (.error e) r₁

/-! ## What a run keeps -/

/-- What is bound is one of the two heads, a variable that is not rigid, and it is bound to the
other one. -/
theorem target?_cases (h : target? a b = some (v, t)) :
    v.rigid = false ∧ ((a = .var v ∧ t = b) ∨ (b = .var v ∧ t = a)) := by
  have hleft : ∀ {w : TypeVar} {c : Ty}, (if !w.rigid then some (w, c) else none) = some (v, t) →
      v.rigid = false ∧ w = v ∧ c = t := by
    intro w c hw
    split at hw
    next hr =>
      obtain ⟨rfl, rfl⟩ := Prod.mk.inj (Option.some.inj hw)
      exact ⟨by simpa using hr, rfl, rfl⟩
    · cases hw
  unfold target? at h
  split at h
  next w x =>
    split at h
    next hr =>
      obtain ⟨rfl, rfl⟩ := Prod.mk.inj (Option.some.inj h)
      exact ⟨by simpa using hr, .inl ⟨rfl, rfl⟩⟩
    · obtain ⟨hr, rfl, rfl⟩ := hleft h
      exact ⟨hr, .inr ⟨rfl, rfl⟩⟩
  · obtain ⟨hr, rfl, rfl⟩ := hleft h
    exact ⟨hr, .inl ⟨rfl, rfl⟩⟩
  · obtain ⟨hr, rfl, rfl⟩ := hleft h
    exact ⟨hr, .inr ⟨rfl, rfl⟩⟩
  · cases h

/-- The type to be bound is one of the two heads. -/
theorem of_target? (h : target? a b = some (v, t)) (ha : P a) (hb : P b) : P t := by
  rcases (target?_cases h).2 with ⟨_, rfl⟩ | ⟨_, rfl⟩
  · exact hb
  · exact ha

/-- The types of one label that are unified part by part are no variables. -/
theorem Decomposes.not_var (h : Decomposes a b) : (∀ v, a ≠ .var v) ∧ ∀ v, b ≠ .var v := by
  constructor
  · rintro v rfl
    exact h.ne (eq_var_of_label h.label.symm).symm
  · rintro v rfl
    exact h.ne (eq_var_of_label h.label)

/-- Heads that are unified part by part are compound. -/
theorem Decomposes.compound (hr : r.Interned) (h : Decomposes a b) (ha : r.Holds a) :
    a.Compound := by
  rcases hr.compound_of_holds ha h.not_var.1 with ⟨c, rfl⟩ | hc
  · exact absurd (eq_basic_of_label h.label.symm).symm h.ne
  · exact hc

/-- Heads that fail bind nothing. -/
theorem Settles.of_error (hs : Settles r a b (.error e) r') (h : r.Consistent) (ha : r.Holds a)
    (hb : r.Holds b) :
    r.Settled r' := by
  cases hs with
  | recursive v t _ _ _ ht _ hrun =>
    have hres := h.resolve_run (of_target? ht ha hb)
    rw [hrun] at hres
    exact hres.toSettled
  | clash _ _ _ _ _ hrun =>
    have hfail := (h.failMismatch_run (α := Ty) ha hb).2
    rwa [hrun] at hfail

/-- Settling two heads keeps the registry consistent and loses none of its types. -/
theorem Settles.preserves {out : Except UnifyFault Ty} (hs : Settles r a b out r')
    (h : r.Consistent)
    (ha : r.Holds a) (hb : r.Holds b) (hfa : ∀ v, a = .var v → r.binding? v = none)
    (hfb : ∀ v, b = .var v → r.binding? v = none) :
    r'.Consistent ∧ r.Extends r' ∧ ∀ u, out = .ok u → r'.Holds u := by
  cases hs with
  | same => exact ⟨h, Extends.refl _, fun u hu => Except.ok.inj hu ▸ ha⟩
  | broken => exact ⟨h, Extends.refl _, fun u hu => Except.ok.inj hu ▸ h.basic .invalid⟩
  | bound v t hne _ _ ht hocc =>
    obtain ⟨hflex, hside⟩ := target?_cases ht
    -- the bound variable and its type are the two heads, in one order or the other
    have hpair : r.Holds (.var v) ∧ r.Holds t ∧ r.binding? v = none := by
      rcases hside with ⟨rfl, rfl⟩ | ⟨rfl, rfl⟩
      · exact ⟨ha, hb, hfa v rfl⟩
      · exact ⟨hb, ha, hfb v rfl⟩
    obtain ⟨hv, htHolds, hfree⟩ := hpair
    have hno : ¬ ReflTransGen r.Child t (.var v) := by
      intro hreach
      rw [(h.occurs_iff hfree htHolds).mpr hreach] at hocc
      cases hocc
    refine ⟨h.assign hv hflex htHolds hno, extends_assign hfree, ?_⟩
    intro u hu
    exact Except.ok.inj hu ▸ htHolds
  | recursive v t hne hna hnb ht hocc hrun =>
    have hset := (Settles.recursive v t hne hna hnb ht hocc hrun).of_error h ha hb
    exact ⟨hset.consistent, hset.grows.extends, fun u hu => by cases hu⟩
  | clash hne hna hnb ht hlab hrun =>
    have hset := (Settles.clash hne hna hnb ht hlab hrun).of_error h ha hb
    exact ⟨hset.consistent, hset.grows.extends, fun u hu => by cases hu⟩

theorem Decomposes.length_parts (h : Decomposes a b) : a.parts.length = b.parts.length :=
  length_parts_of_label h.label

theorem Decomposes.joined_compound (hr : r.Interned) (h : Decomposes a b) (ha : r.Holds a)
    (hlen : us.length = a.parts.length) : (joined a b us).Compound :=
  (h.compound hr ha).rebuild hlen

theorem Consistent.add_joined (h : r.Consistent) (hd : Decomposes a b) (ha : r.Holds a)
    (hlen : us.length = a.parts.length) (hus : ∀ u ∈ us, r.Holds u) :
    r.Settled (r.add (joined a b us)) := by
  refine ⟨h.grows (grows_add _ _) (h.toInterned.add (hd.joined_compound h.toInterned ha hlen) ?_),
    grows_add _ _⟩
  intro u hu
  rw [joined, parts_rebuild hlen] at hu
  exact hus u hu

theorem map_cons_eq_ok (h : out.map (u :: ·) = .ok us) : ∃ us', out = .ok us' ∧ us = u :: us' := by
  cases out with
  | error e => cases h
  | ok us' => exact ⟨us', rfl, (Except.ok.inj h).symm⟩

/-- Two lists of operands in a registry that can take them. -/
structure Ready (r : Registry) (as bs : List Ty) : Prop where
  consistent : r.Consistent
  left : ∀ a ∈ as, r.Holds a
  right : ∀ b ∈ bs, r.Holds b

namespace Ready

variable {r₁ : Registry}

/-- One pair of operands. -/
theorem pair (h : r.Consistent) (ha : r.Holds a) (hb : r.Holds b) : Ready r [a] [b] :=
  ⟨h, forall_mem_singleton.mpr ha, forall_mem_singleton.mpr hb⟩

section

variable (h : Ready r (a :: as) (b :: bs))
include h

theorem holds_left : r.Holds a := h.left a mem_cons_self

theorem holds_right : r.Holds b := h.right b mem_cons_self

theorem holds_head_left : r.Holds (r.head a) := h.consistent.holds_head h.holds_left

theorem holds_head_right : r.Holds (r.head b) := h.consistent.holds_head h.holds_right

theorem parts : Ready r (r.head a).parts (r.head b).parts :=
  ⟨h.consistent, fun _ hx => h.consistent.holds_part h.holds_head_left hx,
    fun _ hx => h.consistent.holds_part h.holds_head_right hx⟩

theorem tail (h₁ : r₁.Consistent) (he : r.Extends r₁) : Ready r₁ as bs :=
  ⟨h₁, fun x hx => he.holds (h.left x (mem_cons_of_mem _ hx)),
    fun x hx => he.holds (h.right x (mem_cons_of_mem _ hx))⟩

theorem settles {out : Except UnifyFault Ty} (hs : Settles r (r.head a) (r.head b) out r₁) :
    r₁.Consistent ∧ r.Extends r₁ ∧ ∀ u, out = .ok u → r₁.Holds u :=
  hs.preserves h.consistent h.holds_head_left h.holds_head_right
    (fun _ hv => h.consistent.head_unbound h.holds_left hv)
    fun _ hv => h.consistent.head_unbound h.holds_right hv

end

end Ready

/-- What a run has to leave behind. -/
structure Kept (r : Registry) (as : List Ty)
    (out : Except UnifyFault (List Ty)) (r' : Registry) : Prop where
  consistent : r'.Consistent
  extends_ : r.Extends r'
  length : ∀ us, out = .ok us → us.length = as.length
  holds : ∀ us, out = .ok us → ∀ u ∈ us, r'.Holds u

/-- One more pair in front of a run. -/
theorem Kept.cons {r₁ r₂ : Registry} (he : r.Extends r₁) (hu : r₁.Holds u) (h : Kept r₁ as out r₂) :
    Kept r (a :: as) (out.map (u :: ·)) r₂ := by
  refine ⟨h.consistent, he.trans h.extends_, ?_, ?_⟩
  · intro us hok
    obtain ⟨us', hout, rfl⟩ := map_cons_eq_ok hok
    rw [length_cons, length_cons, h.length us' hout]
  · intro us hok x hx
    obtain ⟨us', hout, rfl⟩ := map_cons_eq_ok hok
    rcases mem_cons.mp hx with rfl | hx
    · exact h.extends_.holds hu
    · exact h.holds us' hout x hx

theorem Kept.error (h : r'.Consistent) (he : r.Extends r') : Kept r as (.error e) r' :=
  ⟨h, he, fun us hok => (by cases hok), fun us hok => (by cases hok)⟩

/-- **A run keeps the registry.** Whether it succeeds or fails half-way, it leaves the registry
consistent, with all that was there before, and what it returns is registered. -/
theorem UnifyRun.preserves (run : UnifyRun r as bs out r') (h : Ready r as bs) :
    Kept r as out r' := by
  induction run with
  | nil r =>
    refine ⟨h.consistent, Extends.refl r, ?_, ?_⟩
    · rintro us ⟨⟩
      rfl
    · rintro us ⟨⟩ u hu
      cases hu
  | settled hs _ ih =>
    obtain ⟨h₁, he₁, hu⟩ := h.settles hs
    exact Kept.cons he₁ (hu _ rfl) (ih (h.tail h₁ he₁))
  | failed hs =>
    obtain ⟨h₁, he₁, _⟩ := h.settles hs
    exact Kept.error h₁ he₁
  | parts hd _ _ ihInner ihRest =>
    have hin := ihInner h.parts
    have hadd := hin.consistent.add_joined hd (hin.extends_.holds h.holds_head_left)
      (hin.length _ rfl) (hin.holds _ rfl)
    have he := hin.extends_.trans hadd.grows.extends
    exact Kept.cons he (holds_add _ _) (ihRest (h.tail hadd.consistent he))
  | partsFailed hd _ ihInner =>
    have hin := ihInner h.parts
    exact Kept.error hin.consistent hin.extends_

/-- **Induction over a run from a consistent registry.** The rules of `UnifyRun`, with what is known
of the registries in between. -/
theorem UnifyRun.induction_on
    {P : Registry → List Ty → List Ty → Except UnifyFault (List Ty) → Registry → Prop}
    (nil : ∀ r, r.Consistent → P r [] [] (.ok []) r)
    (settled : ∀ {r r₁ r₂ a b u as bs out}, Ready r (a :: as) (b :: bs) →
      Settles r (r.head a) (r.head b) (.ok u) r₁ → Ready r₁ as bs → UnifyRun r₁ as bs out r₂ →
      P r₁ as bs out r₂ → P r (a :: as) (b :: bs) (out.map (u :: ·)) r₂)
    (failed : ∀ {r r₁ a b as bs e}, Ready r (a :: as) (b :: bs) →
      Settles r (r.head a) (r.head b) (.error e) r₁ → P r (a :: as) (b :: bs) (.error e) r₁)
    (parts : ∀ {r r₁ r₂ a b as bs us out}, Ready r (a :: as) (b :: bs) →
      Decomposes (r.head a) (r.head b) →
      UnifyRun r (r.head a).parts (r.head b).parts (.ok us) r₁ →
      P r (r.head a).parts (r.head b).parts (.ok us) r₁ →
      r₁.Settled (r₁.add (joined (r.head a) (r.head b) us)) →
      Ready (r₁.add (joined (r.head a) (r.head b) us)) as bs →
      UnifyRun (r₁.add (joined (r.head a) (r.head b) us)) as bs out r₂ →
      P (r₁.add (joined (r.head a) (r.head b) us)) as bs out r₂ →
      P r (a :: as) (b :: bs) (out.map (joined (r.head a) (r.head b) us :: ·)) r₂)
    (partsFailed : ∀ {r r₁ a b as bs e}, Ready r (a :: as) (b :: bs) →
      Decomposes (r.head a) (r.head b) →
      UnifyRun r (r.head a).parts (r.head b).parts (.error e) r₁ →
      P r (r.head a).parts (r.head b).parts (.error e) r₁ → P r (a :: as) (b :: bs) (.error e) r₁)
    (run : UnifyRun r as bs out r') (h : Ready r as bs) : P r as bs out r' := by
  induction run with
  | nil r => exact nil r h.consistent
  | settled hs rest ih =>
    obtain ⟨h₁, he₁, _⟩ := h.settles hs
    have hr := h.tail h₁ he₁
    exact settled h hs hr rest (ih hr)
  | failed hs => exact failed h hs
  | parts hd inner rest ihInner ihRest =>
    have hin := inner.preserves h.parts
    have hadd := hin.consistent.add_joined hd (hin.extends_.holds h.holds_head_left)
      (hin.length _ rfl) (hin.holds _ rfl)
    have hr := h.tail hadd.consistent (hin.extends_.trans hadd.grows.extends)
    exact parts h hd inner (ihInner h.parts) hadd hr rest (ihRest hr)
  | partsFailed hd inner ihInner => exact partsFailed h hd inner (ihInner h.parts)

/-! ## Where the bound types come from -/

/-- A property of types that walks down keep. -/
def Closed (r : Registry) (P : Ty → Prop) : Prop := ∀ t u, P t → r.Child t u → P u

theorem Closed.reach (h : r.Closed P) (ht : P t) (hr : ReflTransGen r.Child t u) : P u := by
  induction hr with
  | refl => exact ht
  | tail _ hc ih => exact h _ _ ih hc

theorem Closed.grows (h : r.Closed P) (hg : r.Grows r') : r'.Closed P :=
  fun t u ht hc => h t u ht (hg.child_iff.mp hc)

/-- On the way from `r` to `r'` only variables with the property have been bound, and walks down
still keep it. If none of those variables can be bound, nothing has been. -/
structure BindsOnly (P : Ty → Prop) (r r' : Registry) : Prop where
  closed : r'.Closed P
  spares : ∀ {v : TypeVar}, r.Holds (.var v) → ¬ P (.var v) → r'.binding? v = r.binding? v
  quiet : (∀ v, P (.var v) → r.binding? v = none → v.rigid = true) → r.Grows r'

theorem BindsOnly.grows (h : r.Closed P) (hg : r.Grows r') : BindsOnly P r r' :=
  ⟨h.grows hg, fun _ _ => hg.binding? _, fun _ => hg⟩

theorem BindsOnly.trans {r₁ r₂ : Registry} (h : BindsOnly P r r₁) (he : r.Extends r₁)
    (h' : BindsOnly P r₁ r₂) : BindsOnly P r r₂ := by
  refine ⟨h'.closed, fun hv hP => (h'.spares (he.holds hv) hP).trans (h.spares hv hP), fun hq => ?_⟩
  have hg := h.quiet hq
  exact hg.trans (h'.quiet fun v hP hb => hq v hP (by rwa [hg.binding?] at hb))

/-- Only variables below the two types are bound. -/
theorem Ready.settles_bindsOnly {r₁ : Registry} {out : Except UnifyFault Ty}
    (h : Ready r (a :: as) (b :: bs)) (hs : Settles r (r.head a) (r.head b) out r₁)
    (hc : r.Closed P) (hPa : P a) (hPb : P b) : BindsOnly P r r₁ := by
  cases out with
  | error e =>
    exact .grows hc (hs.of_error h.consistent h.holds_head_left h.holds_head_right).grows
  | ok u =>
    have hA := hc.reach hPa (h.consistent.reach_head h.holds_left)
    have hB := hc.reach hPb (h.consistent.reach_head h.holds_right)
    have hHa := h.holds_head_left
    have hHb := h.holds_head_right
    have hua := fun v => h.consistent.head_unbound h.holds_left (v := v)
    have hub := fun v => h.consistent.head_unbound h.holds_right (v := v)
    generalize r.head a = a, r.head b = b at *
    cases hs with
    | same => exact .grows hc (Grows.refl r)
    | broken => exact .grows hc (Grows.refl r)
    | bound v _ _ _ _ ht _ =>
      -- the bound variable is one of the heads, and its type is the other one
      obtain ⟨hflex, hside⟩ := target?_cases ht
      have hv : r.Holds (.var v) ∧ P (.var v) ∧ r.binding? v = none := by
        rcases hside with ⟨rfl, _⟩ | ⟨rfl, _⟩
        · exact ⟨hHa, hA, hua v rfl⟩
        · exact ⟨hHb, hB, hub v rfl⟩
      refine ⟨fun x y hx hxy => ?_,
        fun {w} hw hP => assign_binding?_of_id_ne fun hid => ?_, fun hq => ?_⟩
      · rcases child_assign hxy with hxy | ⟨_, _, _, rfl⟩
        · exact hc x y hx hxy
        · exact of_target? ht hA hB
      · exact hP (h.consistent.var_ext hw hv.1 hid ▸ hv.2.1)
      · rw [hq v hv.2.1 hv.2.2] at hflex
        cases hflex

theorem Ready.parts_closed (h : Ready r (a :: as) (b :: bs)) (hc : r.Closed P)
    (hPa : P a) (hPb : P b) :
    (∀ x ∈ (r.head a).parts, P x) ∧ ∀ x ∈ (r.head b).parts, P x :=
  ⟨fun _ hx => hc _ _ (hc.reach hPa (h.consistent.reach_head h.holds_left)) (.part hx),
    fun _ hx => hc _ _ (hc.reach hPb (h.consistent.reach_head h.holds_right)) (.part hx)⟩

/-- **A run binds only what its operands lead to.** A property that walks down keep, and that the
operands have, is one of all variables that the run binds, and is still kept by walks after it. -/
theorem UnifyRun.bindsOnly (run : UnifyRun r as bs out r') (h : Ready r as bs) :
    r.Closed P → (∀ a ∈ as, P a) → (∀ b ∈ bs, P b) → BindsOnly P r r' := by
  refine UnifyRun.induction_on (P := fun r as bs _ r' => r.Closed P → (∀ a ∈ as, P a) →
    (∀ b ∈ bs, P b) → BindsOnly P r r') ?nil ?settled ?failed ?parts ?partsFailed run h
  case nil => exact fun r _ hc _ _ => .grows hc (Grows.refl r)
  case settled =>
    intro _ _ _ _ _ _ _ _ _ h hs _ _ ih hc hPa hPb
    rw [forall_mem_cons] at hPa hPb
    have hfirst := h.settles_bindsOnly hs hc hPa.1 hPb.1
    exact hfirst.trans (h.settles hs).2.1 (ih hfirst.closed hPa.2 hPb.2)
  case failed =>
    intro _ _ _ _ _ _ _ h hs hc hPa hPb
    rw [forall_mem_cons] at hPa hPb
    exact h.settles_bindsOnly hs hc hPa.1 hPb.1
  case parts =>
    intro _ _ _ _ _ _ _ _ _ h _ inner ihInner hadd _ _ ihRest hc hPa hPb
    rw [forall_mem_cons] at hPa hPb
    obtain ⟨hPx, hPy⟩ := h.parts_closed hc hPa.1 hPb.1
    have hin := ihInner hc hPx hPy
    have he := (inner.preserves h.parts).extends_
    have hfirst := hin.trans he (.grows hin.closed hadd.grows)
    exact hfirst.trans (he.trans hadd.grows.extends) (ihRest hfirst.closed hPa.2 hPb.2)
  case partsFailed =>
    intro _ _ _ _ _ _ _ h _ _ ihInner hc hPa hPb
    rw [forall_mem_cons] at hPa hPb
    obtain ⟨hPx, hPy⟩ := h.parts_closed hc hPa.1 hPb.1
    exact ihInner hc hPx hPy

theorem map_singleton_eq_ok {out : Except UnifyFault Ty} (h : out.map ([·]) = .ok us) :
    ∃ u, out = .ok u ∧ us = [u] := by
  cases out with
  | error e => cases h
  | ok u => exact ⟨u, rfl, (Except.ok.inj h).symm⟩

/-! ## The unifier runs -/

/-- One level of the unifier, by the heads of its operands. -/
theorem unifyLevel_run (part : Ty → Ty → UnifyM Ty) (a b : Ty) (r : Registry) :
    (unifyLevel part a b).run.run r = if r.head a = r.head b then (.ok (r.head a), r)
      else if r.head a = .invalid ∨ r.head b = .invalid then (.ok .invalid, r)
      else match target? (r.head a) (r.head b) with
        | some (v, t) => (bind v t).run.run r
        | none => (unifyParts part (r.head a) (r.head b)).run.run r := by
  rw [unifyLevel, run_bind]
  show ((if r.head a = r.head b then _ else _ : UnifyM Ty)).run.run r = _
  generalize r.head a = a, r.head b = b
  have hinv : (a.isInvalid || b.isInvalid) = true ↔ a = .invalid ∨ b = .invalid := by
    simp [isInvalid]
  simp only [hinv]
  by_cases heq : a = b
  · rw [if_pos heq, if_pos heq]
    rfl
  by_cases hbad : a = .invalid ∨ b = .invalid
  · rw [if_neg heq, if_neg heq, if_pos hbad, if_pos hbad]
    rfl
  rw [if_neg heq, if_neg heq, if_neg hbad, if_neg hbad]
  -- a rigid variable and anything else clash, which is what comes of its having no parts
  cases a with
  | var v =>
    cases b with
    | var w => cases hv : v.rigid <;> cases hw : w.rigid <;> simp [target?, hv, hw, unifyParts]
    | _ => cases hv : v.rigid <;> simp [target?, hv, unifyParts]
  | _ =>
    cases b with
    | var w => cases hw : w.rigid <;> simp [target?, hw, unifyParts]
    | _ => rfl

theorem bind_run (v : TypeVar) (t : Ty) (r : Registry) :
    (bind v t).run.run r = if r.occurs v t = true then
        (.error (.recursive v ((resolve t).run r).1), ((resolve t).run r).2)
          else (.ok t, r.assign v t) := by
  rw [bind, run_bind]
  show ((if r.occurs v t = true then _ else _ : UnifyM Ty)).run.run r = _
  split <;> rfl

/-- The outcome of one pair as the beginning of every run that starts with that pair. -/
def Begins (r : Registry) (a b : Ty) : Except UnifyFault Ty × Registry → Prop
  | (.ok u, r₁) => ∀ ⦃as bs out r₂⦄, UnifyRun r₁ as bs out r₂ →
      UnifyRun r (a :: as) (b :: bs) (out.map (u :: ·)) r₂
  | (.error e, r₁) => ∀ as bs, UnifyRun r (a :: as) (b :: bs) (.error e) r₁

theorem Settles.begins (h : Settles r (r.head a) (r.head b) o.1 o.2) : Begins r a b o := by
  obtain ⟨e | u, r₁⟩ := o
  · exact fun _ _ => .failed h
  · exact fun _ _ _ _ rest => .settled h rest

/-- A run on one pair. -/
theorem Begins.run (h : Begins r a b o) : UnifyRun r [a] [b] (o.1.map ([·])) o.2 := by
  obtain ⟨e | u, r₁⟩ := o
  · exact h [] []
  · exact h (.nil r₁)

theorem settles_target (hne : a ≠ b) (ha : a ≠ .invalid) (hb : b ≠ .invalid)
    (ht : target? a b = some (v, t)) :
    Settles r a b ((bind v t).run.run r).1 ((bind v t).run.run r).2 := by
  rw [bind_run]
  split
  · next hocc => exact .recursive v t hne ha hb ht hocc rfl
  · next hocc => exact .bound v t hne ha hb ht (by simpa using hocc)

theorem settles_clash (hr : r.Consistent) (hHa : r.Holds a) (hHb : r.Holds b) (hne : a ≠ b)
    (ha : a ≠ .invalid) (hb : b ≠ .invalid) (ht : target? a b = none) (hlab : a.label ≠ b.label) :
    Settles r a b ((failMismatch (α := Ty) a b).run.run r).1
      ((failMismatch (α := Ty) a b).run.run r).2 := by
  obtain ⟨herr, _⟩ := hr.failMismatch_run (α := Ty) hHa hHb
  rw [herr]
  exact .clash hne ha hb ht hlab (Prod.ext herr rfl)

/-- Where a unifier that began with `r₀` has got to. -/
structure Within (r₀ r : Registry) : Prop where
  consistent : r.Consistent
  extends_ : r₀.Extends r
  closed : r.Closed r₀.Holds

theorem Within.start (h : r.Consistent) : Within r r :=
  ⟨h, Extends.refl r, fun _ _ => h.holds_child⟩

theorem Within.after (h : Within r₀ r) (run : UnifyRun r as bs out r') (ha : ∀ a ∈ as, r₀.Holds a)
    (hb : ∀ b ∈ bs, r₀.Holds b) : Within r₀ r' := by
  have hready : Ready r as bs :=
    ⟨h.consistent, fun a hm => h.extends_.holds (ha a hm), fun b hm => h.extends_.holds (hb b hm)⟩
  have hkept := run.preserves hready
  exact ⟨hkept.consistent, h.extends_.trans hkept.extends_,
    (run.bindsOnly hready h.closed ha hb).closed⟩

/-- The bound suffices for a type when it covers the types that are not above it. -/
def Covers (r₀ r : Registry) (n : Nat) (a : Ty) : Prop :=
  r₀.size ≤ n + (r.above (Finset.range r₀.size) a).card

theorem covers_size (r₀ r : Registry) (a : Ty) : Covers r₀ r r₀.size a := Nat.le_add_right _ _

theorem Covers.mono (h : Covers r₀ r n a) (he : r.Extends r') : Covers r₀ r' n a := by
  have hle := Finset.card_le_card (he.above_subset (Finset.range r₀.size) a)
  unfold Covers at h ⊢
  omega

theorem Within.place (h : Within r₀ r) (ha : r₀.Holds a) :
    ∃ i ∈ Finset.range r₀.size, r.types[i]? = some a := by
  obtain ⟨i, hi⟩ := mem_iff_getElem?.mp ha
  obtain ⟨hlt, _⟩ := List.getElem?_eq_some_iff.mp hi
  rw [length_types] at hlt
  exact ⟨i, Finset.mem_range.mpr hlt, h.extends_.get? hi⟩

theorem Within.not_covers_zero (h : Within r₀ r) (ha : r₀.Holds a) : ¬ Covers r₀ r 0 a := by
  obtain ⟨i, hi, hget⟩ := h.place ha
  have hlt := h.consistent.acyclic.card_above_lt_card hi hget
  rw [Finset.card_range] at hlt
  unfold Covers
  omega

theorem Within.covers_below (h : Within r₀ r) (ha : r₀.Holds a) (hn : Covers r₀ r (n + 1) a)
    (hu : TransGen r.Child a u) : Covers r₀ r n u := by
  obtain ⟨i, hi, hget⟩ := h.place ha
  have hlt := h.consistent.acyclic.card_above_lt hi hget hu
  unfold Covers at hn ⊢
  omega

/-- A unifier of pairs unifies lists of them. -/
theorem unifyAll_runs {part : Ty → Ty → UnifyM Ty}
    (hpart : ∀ {r a b}, Within r₀ r → r₀.Holds a → r₀.Holds b → Covers r₀ r n a →
      Begins r a b ((part a b).run.run r))
    (hlen : as.length = bs.length) (hw : Within r₀ r) (ha : ∀ a ∈ as, r₀.Holds a)
    (hb : ∀ b ∈ bs, r₀.Holds b) (hn : ∀ a ∈ as, Covers r₀ r n a) :
    UnifyRun r as bs ((unifyAll part as bs).run.run r).1 ((unifyAll part as bs).run.run r).2 := by
  induction as generalizing bs r with
  | nil =>
    obtain rfl : bs = [] := length_eq_zero_iff.mp hlen.symm
    exact .nil r
  | cons a as ih =>
    cases bs with
    | nil => cases hlen
    | cons b bs =>
      rw [forall_mem_cons] at ha hb hn
      have hbegin := hpart hw ha.1 hb.1 hn.1
      have hone := hbegin.run
      have hw₁ := hw.after hone (by simpa using ha.1) (by simpa using hb.1)
      have hkept :=
        hone.preserves (.pair hw.consistent (hw.extends_.holds ha.1) (hw.extends_.holds hb.1))
      rw [unifyAll_cons_run]
      revert hbegin hw₁ hkept
      obtain ⟨e | u, r₁⟩ := (part a b).run.run r
      · intro hbegin _ _
        exact hbegin as bs
      · intro hbegin hw₁ hkept
        -- the first pair has only added to what is above the others, so they are covered still
        have hrest := ih (Nat.succ.inj hlen) hw₁ ha.2 hb.2 fun x hx =>
          (hn.2 x hx).mono hkept.extends_
        rw [andThen_ok, andThen_map (u :: ·)]
        exact hbegin hrest

/-- A bound that covers the left operand is never what ends the unifier. -/
theorem unifyWithin_begins (hw : Within r₀ r) (ha : r₀.Holds a) (hb : r₀.Holds b)
    (hn : Covers r₀ r n a) :
    Begins r a b ((unifyWithin n a b).run.run r) := by
  induction n generalizing r a b with
  | zero => exact absurd hn (hw.not_covers_zero ha)
  | succ n ih =>
    have hHa := hw.extends_.holds ha
    have hHb := hw.extends_.holds hb
    have hready : Ready r [a] [b] := .pair hw.consistent hHa hHb
    rw [unifyWithin, unifyLevel_run]
    split
    next heq =>
      refine Settles.begins ?_
      rw [← heq]
      exact .same _
    next hne =>
    split
    · next hbad => exact Settles.begins (.broken hne hbad)
    next hgood =>
    rw [not_or] at hgood
    split
    · next v t ht => exact Settles.begins (settles_target hne hgood.1 hgood.2 ht)
    next ht =>
    by_cases hlab : (r.head a).label = (r.head b).label
    · have hd : Decomposes (r.head a) (r.head b) := ⟨hne, hgood.1, hgood.2, ht, hlab⟩
      -- each part of the head lies below the operand, so a smaller bound covers it
      have hreach := hw.consistent.reach_head hHa
      have hcover : ∀ x ∈ (r.head a).parts, Covers r₀ r n x := fun x hx =>
        hw.covers_below ha hn (TransGen.tail' hreach (.part hx))
      obtain ⟨hPa, hPb⟩ := hready.parts_closed hw.closed ha hb
      have hinner := unifyAll_runs ih hd.length_parts hw hPa hPb hcover
      have hkept := hinner.preserves hready.parts
      rw [unifyParts_run _ hne hlab]
      revert hinner hkept
      obtain ⟨e | us, r₁⟩ := (unifyAll (unifyWithin n) (r.head a).parts (r.head b).parts).run.run r
      · intro hinner _
        exact fun _ _ => .partsFailed hd hinner
      · intro hinner hkept
        have hlen := hkept.length us rfl
        have hreg := register_run_of_parts hkept.consistent.toInterned
          (hd.joined_compound hw.consistent.toInterned hready.holds_head_left hlen)
          (fun u hu => hkept.holds us rfl u (by rwa [joined, parts_rebuild hlen] at hu))
        show Begins r a b (.ok ((register _).run r₁).1, ((register _).run r₁).2)
        rw [hreg]
        exact fun _ _ _ _ rest => .parts hd hinner rest
    · rw [unifyParts_of_label_ne _ hlab]
      exact Settles.begins (settles_clash hw.consistent hready.holds_head_left
        hready.holds_head_right hne hgood.1 hgood.2 ht hlab)

/-- **Every unification of registered types is a run.** -/
theorem unify_runs (h : r.Consistent) (ha : r.Holds a) (hb : r.Holds b) :
    UnifyRun r [a] [b] (((unify a b).run.run r).1.map ([·])) ((unify a b).run.run r).2 := by
  have hn : Covers r r r.depth a := Nat.le_add_right_of_le (Nat.le_succ r.size)
  exact (unifyWithin_begins (Within.start h) ha hb hn).run

end Registry

end UnitCheck
