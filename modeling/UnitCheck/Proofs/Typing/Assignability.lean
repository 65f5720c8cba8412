import UnitCheck.Proofs.Typing.MostGeneral

/-!
# What may be assigned

Unifying for an assignment extends the assignments that are allowed. These are an order, since
`Label.Wider` and sameness are, except that the invalid type, which goes with anything, must not
stand in the middle.

* `Same.trans`, `Widens.trans` — transitivity through a type that is not broken.
* `Widens.antisymm` — types that widen each other are the same.
-/

namespace UnitCheck

open Ty Relation List

namespace Registry

/-- **Unifying for an assignment extends the assignments that are allowed.** After its success the
assignment is allowed, and stays so whatever is done to the registry. Between types without free
variables it succeeds exactly if the assignment is allowed, unification succeeds exactly on
identical types, and nothing is bound. -/
theorem unifyAssignable_extends_assignable {r : Registry} (h : r.Reachable) {dst src : Ty}
    (hd : r.Holds dst) (hs : r.Holds src) :
    (((unifyAssignable dst src).run.run r).1 = .ok () →
      ∀ r', ((unifyAssignable dst src).run.run r).2.Later r' →
        ((assignable dst src).run r').1 = true) ∧
    (r.hasFree dst = false → r.hasFree src = false →
      (((unifyAssignable dst src).run.run r).1 = .ok () ↔ ((assignable dst src).run r).1 = true) ∧
      ((∃ t, ((unify dst src).run.run r).1 = .ok t) ↔ r.identical dst src = true) ∧
      ((unifyAssignable dst src).run.run r).2.bindings = r.bindings ∧
      ((assignable dst src).run r).2.bindings = r.bindings ∧
      ((unify dst src).run.run r).2.bindings = r.bindings) := by
  have hc := h.consistent
  have hev := hc.unifyAssignable_evolves hd hs
  refine ⟨fun hok r' hlater => ?_, fun hfd hfs => ?_⟩
  · have hev' := hlater.evolves hev.consistent
    have hHd := hev.extends_.holds hd
    have hHs := hev.extends_.holds hs
    rw [hev'.consistent.assignable_iff (hev'.extends_.holds hHd) (hev'.extends_.holds hHs)]
    exact hev.consistent.widens_mono hev'.consistent hev'.extends_ hHd hHs
      (hc.widens_of_unifyAssignable hd hs hok)
  · obtain ⟨hiff, hg⟩ := hc.unifyAssignable_quiet hd hs hfd hfs
    rw [hc.hasFree_eq_false_iff hd] at hfd
    rw [hc.hasFree_eq_false_iff hs] at hfs
    obtain ⟨hgu, hunify⟩ := hc.unify_quiet hd hs hfd hfs
    exact ⟨hiff.trans (hc.assignable_iff hd hs).symm, hunify, hg.bindings,
      (hc.assignable_settled hd hs).grows.bindings, hgu.bindings⟩

/-- The tuples `(a, [b])` and `(&'l T, [int])`: the second may be assigned to the first one once
they have been unified, but not before. The second one has no free variables and goes with
itself. -/
theorem unifyAssignable_extends_assignable_sample :
    ((assignable Sample.left Sample.right).run Sample.registry).1 = false ∧
      ((assignable Sample.left Sample.right).run
        ((unifyAssignable Sample.left Sample.right).run.run Sample.registry).2).1 = true ∧
      ((unifyAssignable Sample.right Sample.right).run.run Sample.registry).1 = .ok () := by
  refine ⟨by decide +kernel, ?_, ?_⟩
  · have hok :
      ((unifyAssignable Sample.left Sample.right).run.run Sample.registry).1.isOk = true := by
      decide +kernel
    refine (unifyAssignable_extends_assignable Sample.reachable Sample.holds_left
      Sample.holds_right).1 ?_ _ ReflTransGen.refl
    cases hout : ((unifyAssignable Sample.left Sample.right).run.run Sample.registry).1 with
    | ok => rfl
    | error e =>
      rw [hout] at hok
      cases hok
  · obtain ⟨hiff, _⟩ := (unifyAssignable_extends_assignable Sample.reachable Sample.holds_right
      Sample.holds_right).2 (by decide +kernel) (by decide +kernel)
    exact hiff.mpr (by decide +kernel)

end Registry

namespace Ty

/-! ## Transitivity and antisymmetry -/

theorem Label.Wider.trans {a b c : Label} (h : a.Wider b) (h' : b.Wider c) : a.Wider c := by
  cases h with
  | refl => exact h'
  | float => cases h'; exact .float
  | ref => cases h'; exact .ref
  | array n => cases h' <;> exact .array _

theorem Label.Wider.antisymm {a b : Label} (h : a.Wider b) (h' : b.Wider a) : a = b := by
  cases h with
  | refl => rfl
  | float => cases h'
  | ref => cases h'
  | array n => cases h' <;> rfl

theorem Same.symm {a b : Ty} (h : Same a b) : Same b a := by
  induction h with
  | left t => exact .right t
  | right t => exact .left t
  | @parts a b label _ ih =>
    have hparts : List.Forall₂ (fun x y => Same y x) a.parts b.parts :=
      forall₂_iff_zip.mpr ⟨length_parts_of_label label, fun hp => ih _ hp⟩
    exact same_iff.mpr (.inr (.inr ⟨label.symm, hparts.flip⟩))

theorem Same.trans {a b c : Ty} (hb : b.broken = false) (h : Same a b)
    (h' : Same b c) : Same a c := by
  induction b using parts_induction generalizing a c with
  | h b ih =>
    rw [same_iff] at h h' ⊢
    have hne := ne_invalid_of_sound hb
    rcases h with ha | hinv | ⟨hlab, hparts⟩
    · exact .inl ha
    · exact absurd hinv hne
    rcases h' with hinv | hc | ⟨hlab', hparts'⟩
    · exact absurd hinv hne
    · exact .inr (.inl hc)
    · exact .inr (.inr ⟨hlab.trans hlab', Registry.forall₂_trans_of_mem hparts hparts'
        fun x hx _ _ => ih x hx (broken_of_part hb hx)⟩)

/-- What may be used as `never` is the same as `never`. -/
theorem widens_never {s : Ty} (h : Widens .never s) : Same .never s := by
  rcases widens_iff.mp h with hinv | rfl | rfl | ⟨hlab, _⟩
  · cases hinv
  · exact .right _
  · exact .refl _
  · generalize hs : s.label = l at hlab
    cases hlab
    rw [eq_basic_of_label hs]
    exact .refl _

/-- Widening is transitive where the type in the middle is not spoiled: an invalid part would go
with anything. -/
theorem Widens.trans {a b c : Ty} (hb : b.broken = false) (h : Widens a b) (h' : Widens b c) :
    Widens a c := by
  induction b using parts_induction generalizing a c with
  | h b ih =>
    have hne := ne_invalid_of_sound hb
    rcases widens_iff.mp h with rfl | hinv | rfl | ⟨hlab, hparts⟩
    · exact .same (.left c)
    · exact absurd hinv hne
    · rcases same_iff.mp (widens_never h') with hinv | rfl | ⟨hlab, _⟩
      · cases hinv
      · exact .same (.right a)
      · rw [eq_basic_of_label hlab.symm]
        exact .never a
    rcases widens_iff.mp h' with hinv | rfl | rfl | ⟨hlab', hparts'⟩
    · exact absurd hinv hne
    · exact .same (.right a)
    · exact .never a
    refine widens_iff.mpr (.inr (.inr (.inr ⟨hlab.trans hlab', ?_⟩)))
    refine Registry.forall₂_trans_of_mem hparts hparts' fun x hx {y z} hy hz => ?_
    rw [hlab.partsWiden] at hy ⊢
    have hx' := broken_of_part hb hx
    generalize b.label = l at hy hz
    cases l with
    | tuple n => exact ih x hx hx' hy hz
    | _ => exact Same.trans hx' hy hz

/-- Types that widen to each other differ in lifetimes at most. -/
theorem Widens.antisymm {a b : Ty} (h : Widens a b) (h' : Widens b a) : Same a b := by
  induction a using parts_induction generalizing b with
  | h a ih =>
    rcases widens_iff.mp h with rfl | rfl | rfl | ⟨hlab, hparts⟩
    · exact .left b
    · exact .right a
    · exact (widens_never h').symm
    rcases widens_iff.mp h' with rfl | rfl | rfl | ⟨hlab', hparts'⟩
    · exact .right a
    · exact .left b
    · exact widens_never h
    have heq := hlab.antisymm hlab'
    refine same_iff.mpr (.inr (.inr ⟨heq, forall₂_iff_zip.mpr ⟨hparts.length_eq, ?_⟩⟩))
    intro x y hp
    have hxy := (forall₂_iff_zip.mp hparts).2 hp
    have hyx := (forall₂_iff_zip.mp hparts'.flip).2 hp
    rw [← heq] at hyx
    generalize a.label = l at hxy hyx
    cases l with
    | tuple n => exact ih x (of_mem_zip hp).1 hxy hyx
    | _ => exact hxy

end Ty

namespace Registry

/-- **Assignability is a partial order** on the types of a registry that stand for types without the
invalid one: each may be assigned to itself, assignments go together, types that may be assigned to
each other are identical, and `never` may be assigned to any type. -/
theorem assignable_partial_order {r : Registry} (h : r.Reachable) :
    (∀ t, r.Holds t → ((assignable t t).run r).1 = true) ∧
    (∀ a b c, r.Holds a → r.Holds b → r.Holds c → (r.applied a).broken = false →
      (r.applied b).broken = false → (r.applied c).broken = false →
      ((assignable a b).run r).1 = true → ((assignable b c).run r).1 = true →
      ((assignable a c).run r).1 = true) ∧
    (∀ a b, r.Holds a → r.Holds b → (r.applied a).broken = false → (r.applied b).broken = false →
      ((assignable a b).run r).1 = true → ((assignable b a).run r).1 = true →
      r.identical a b = true) ∧
    ∀ t, r.Holds t → ((assignable t .never).run r).1 = true := by
  have hc := h.consistent
  refine ⟨fun t ht => ?_, fun a b c ha hb hc' _ hsb _ hab hbc => ?_,
    fun a b ha hb _ _ hab hba => ?_,
    fun t ht => ?_⟩
  · exact (hc.assignable_iff ht ht).mpr (.same (.refl _))
  · rw [hc.assignable_iff ha hb] at hab
    rw [hc.assignable_iff hb hc'] at hbc
    exact (hc.assignable_iff ha hc').mpr (hab.trans hsb hbc)
  · rw [hc.assignable_iff ha hb] at hab
    rw [hc.assignable_iff hb ha] at hba
    exact (hc.identical_iff_same ha hb).mpr (hab.antisymm hba)
  · have hnever : r.applied .never = .never := rfl
    rw [hc.assignable_iff ht (hc.basic .never), hnever]
    exact .never _

namespace Chain

/-! A type parameter `T` and the tuples `(float, &T, [bool])`, `(int, &'l mut T, [bool; 3])` and
`(never, &mut T, [bool; 3])`, of which each may be assigned to the one before it. -/

def param : Ty := .var { id := 8, hint := "T", rigid := true }

def first : Ty := .tuple [.float, .ref param false none, .array .bool none]

def second : Ty := .tuple [.int, .ref param true (some "l"), .array .bool (some 3)]

def third : Ty := .tuple [.never, .ref param true none, .array .bool (some 3)]

def registry : Registry :=
  performAll [.newVar "T" true, .register first, .register second, .register third] (empty 0)

theorem reachable : registry.Reachable := ⟨0, later_performAll (by decide +kernel)⟩

end Chain

/-- `(never, &mut T, [bool; 3])` may be assigned to `(float, &T, [bool])`, by way of
`(int, &'l mut T, [bool; 3])`. -/
theorem assignable_partial_order_chain :
    ((assignable Chain.second Chain.third).run Chain.registry).1 = true ∧
      ((assignable Chain.first Chain.third).run Chain.registry).1 = true := by
  have hsecond : ((assignable Chain.second Chain.third).run Chain.registry).1 = true := by
    decide +kernel
  exact ⟨hsecond,
    (assignable_partial_order Chain.reachable).2.1 Chain.first Chain.second Chain.third
    (by decide +kernel) (by decide +kernel) (by decide +kernel) (by decide +kernel)
    (by decide +kernel) (by decide +kernel) (by decide +kernel) hsecond⟩

end Registry

end UnitCheck
