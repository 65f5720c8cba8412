import UnitCheck.Proofs.Typing.HashConsing
import UnitCheck.Proofs.Typing.Assignability

/-!
# Canonical representatives

Identity leaves out lifetimes and lets the invalid type pass for any other one. Where neither is in
the way, types are identical exactly if they are resolved to one registered type: resolution picks
one representative of each class of identical types. A representative is its own.
-/

namespace UnitCheck

open List

namespace Registry

variable {r : Registry} {a b t : Ty}

theorem Consistent.hasFree_iff (h : r.Consistent) (ht : r.Holds t) :
    r.hasFree t = true ↔ ∃ v, (r.applied t).Mentions v ∧ v.rigid = false := by
  rw [hasFree, h.anyUnbound_eq _ ht, Ty.anyVar_iff]
  simp only [Bool.not_eq_eq_eq_not, Bool.not_true]

/-- A registered type without bound variables is resolved to itself. -/
theorem Plain.resolve_eq (hr : r.Consistent) (h : Plain r t) : (resolve t).run r = (t, r) := by
  rw [resolve_run_eq hr h.holds, h.applied_eq, register_run_of_holds hr.toInterned h.holds]

theorem Consistent.identical_iff_applied_eq (h : r.Consistent) (ha : r.Holds a) (hb : r.Holds b)
    (hsa : (r.applied a).broken = false) (hsb : (r.applied b).broken = false)
    (hea : (r.applied a).erased = r.applied a) (heb : (r.applied b).erased = r.applied b) :
    r.identical a b = true ↔ r.applied a = r.applied b := by
  rw [h.identical_iff_same ha hb]
  constructor
  · intro hsame
    rw [← hea, ← heb, hsame.erased_eq hsa hsb]
  · intro heq
    rw [heq]
    exact .refl _

/-- **Resolution computes canonical representatives.** A type is resolved to an identical one that
mentions no bound variable and is resolved to itself, and nothing is bound for it. The type has free
variables exactly if its representative mentions one that is neither bound nor rigid. Types whose
representatives mention neither the invalid type nor lifetimes are identical exactly if the
representatives are one entry of the registry. -/
theorem resolution_canonical {r : Registry} (h : r.Reachable) :
    (∀ t, r.Holds t → ∀ u r', (resolve t).run r = (u, r') →
      r'.Holds u ∧ (∀ v, u.Mentions v → r'.binding? v = none) ∧ r'.identical u t = true ∧
      r'.bindings = r.bindings ∧ (resolve u).run r' = (u, r') ∧
      (r.hasFree t = true ↔ ∃ v, u.Mentions v ∧ r'.binding? v = none ∧ v.rigid = false)) ∧
    ∀ a b, r.Holds a → r.Holds b → ∀ u w r₁ r₂, (resolve a).run r = (u, r₁) →
      (resolve b).run r₁ = (w, r₂) → u.broken = false → w.broken = false → u.erased = u →
      w.erased = w → (r.identical a b = true ↔ r₂.idOf u = r₂.idOf w) := by
  have hc := h.consistent
  constructor
  · intro t ht u r' hrun
    have hres := hc.resolve_run ht
    rw [hrun] at hres
    obtain rfl : u = r.applied t := hres.type_eq
    -- the representative is the type with all bindings applied
    have hplain : Plain r' (r.applied t) := hc.plain_applied ht hres.grows hres.holds
    refine ⟨hplain.holds, hplain.unbound, ?_, hres.grows.bindings,
      hplain.resolve_eq hres.consistent, ?_⟩
    · rw [hres.consistent.identical_iff_same hplain.holds (hres.grows.holds ht), hplain.applied_eq,
        hres.grows.applied]
      exact .refl _
    · rw [hc.hasFree_iff ht]
      exact exists_congr fun v => and_congr_right fun hm =>
        (and_iff_right (hplain.unbound v hm)).symm
  · intro a b ha hb u w r₁ r₂ hrun hrun' hsu hsw heu hew
    have hres := hc.resolve_run ha
    rw [hrun] at hres
    have hres' := hres.consistent.resolve_run (hres.grows.holds hb)
    rw [hrun'] at hres'
    obtain rfl : u = r.applied a := hres.type_eq
    obtain rfl : w = r.applied b := hres'.type_eq.trans (hres.grows.applied b)
    rw [hc.identical_iff_applied_eq ha hb hsu hsw heu hew]
    refine ⟨fun heq => by rw [heq], fun hid => ?_⟩
    have hheld := hres'.holds
    rw [hres.grows.applied] at hheld
    exact hres'.consistent.idOf_inj (hres'.grows.holds hres.holds) hheld hid

/-- After `(a, [b])` and `(&'l T, [int])` were unified, `[b]` is resolved to `[int]`, so that the
two are identical. -/
theorem resolution_canonical_sample :
    let r := performAll [.unify Sample.left Sample.right] Sample.registry
    let out := (resolve (.array (.var Sample.b) none)).run r
    out.1 = .array .int none ∧ (resolve out.1).run out.2 = out ∧
      r.identical (.array (.var Sample.b) none) (.array .int none) = true := by
  intro r out
  have hr : r.Reachable := Sample.reachable.later (later_performAll (by decide +kernel))
  have hout : out.1 = .array .int none := by decide +kernel
  obtain ⟨hone, htwo⟩ := resolution_canonical hr
  have hb : r.Holds (.array (.var Sample.b) none) := by decide +kernel
  have hint : r.Holds (.array .int none) := by decide +kernel
  obtain ⟨-, -, -, -, hagain, -⟩ := hone _ hb _ _ Prod.mk.eta.symm
  refine ⟨hout, hagain,
    (htwo _ _ hb hint _ _ _ _ Prod.mk.eta.symm Prod.mk.eta.symm ?_ ?_ ?_ ?_).mpr ?_⟩
  all_goals decide +kernel

end Registry

end UnitCheck
