import UnitCheck.Proofs.Analysis.Visits
import UnitCheck.Proofs.Reading.Faithful

/-!
# What is checked in a unit without errors

In a unit without errors nothing is missing that the earlier passes should have handed on, so the
check comes to everything in it (`Visit.Clear.inside`), and finds no error anywhere on its way
(`exists_clear`). -/

namespace UnitCheck

open Checking Relation List

namespace Analysis

section

variable {p : Point} {around : List Enclosure} {set : Setting} {j : Item}
  {functions : List Function}

/-- Each item of a list is come to, with the plan that was made for it. -/
theorem exists_inItems {items : List Item} {plans : Option (List Plan)} (hj : j ∈ items)
    (hsuit : ∀ ps ∈ plans, Item.AllSuit items ps) :
    ∃ w, InItems around set p items plans w ∧ w.item = j ∧ ∀ q ∈ w.plan, j.Suits q := by
  induction items generalizing p plans with
  | nil => cases hj
  | cons i rest ih =>
    rcases mem_cons.mp hj with rfl | hj
    · refine ⟨_, .head, rfl, fun q hq => ?_⟩
      obtain ⟨ps, hps, rfl⟩ := Option.mem_map.mp hq
      exact (hsuit ps hps).1
    · have htail : ∀ ps ∈ plans.map tail, Item.AllSuit rest ps := by
        intro ps hps
        obtain ⟨ps, hmem, rfl⟩ := Option.mem_map.mp hps
        exact (hsuit ps hmem).2
      obtain ⟨w, hw, hitem⟩ := ih hj htail
      exact ⟨w, .tail hw, hitem⟩

theorem exists_inBody {items : List Item} (hj : j ∈ items) :
    ∃ w, InItems around set p items none w ∧ w.item = j ∧ ∀ q ∈ w.plan, j.Suits q :=
  exists_inItems hj (by simp)

/-- Each statement of a body is come to, once its function has a plan. -/
theorem exists_inFunction {self : Option Ty} {f : Function} {q : FunctionPlan}
    (hj : j ∈ f.body.getD []) (hq : p.store.Plans p.store.table.current q) :
    ∃ w, InFunction around set self p f (some q) w ∧ w.item = j ∧ ∀ q ∈ w.plan, j.Suits q := by
  obtain ⟨⟨m, ho⟩, -⟩ := hq
  cases hbody : f.body with
  | none => simp [hbody] at hj
  | some body =>
    rw [hbody] at hj
    obtain ⟨w, hw, hitem⟩ := exists_inBody hj
    exact ⟨w, ⟨q, rfl, m, ho.members, body, hbody, hw⟩, hitem⟩

/-- Each statement of a function body is come to. -/
theorem exists_inFunctions {self : Option Ty} {only : Bool} {plans : List (Option FunctionPlan)}
    (hj : j ∈ functions.flatMap fun f => f.body.getD []) (hp : Sits around set p)
    (hf : Function.AllFit functions)
    (hself : ∀ t ∈ self, p.store.Holds t) (hplans : p.store.AllPlan p.store.table.current plans)
    (hsuit : Function.AllPlanned functions plans) :
    ∃ w, InFunctions around set self only p functions plans w ∧ w.item = j ∧ ∀ q ∈ w.plan,
    j.Suits q := by
  induction hsuit generalizing p with
  | nil => cases hj
  | cons hplan _ ih =>
    obtain ⟨q, rfl⟩ := hplan
    rw [flatMap_cons] at hj
    rcases mem_append.mp hj with hj | hj
    · obtain ⟨w, hw, hitem⟩ := exists_inFunction hj (hplans _ mem_cons_self q rfl)
      exact ⟨w, .head hw, hitem⟩
    · obtain ⟨hsits, hself', hplans'⟩ := hp.nextFunction _ hf.1 hself hplans
      obtain ⟨w, hw, hitem⟩ := ih hj hsits hf.2 hself' hplans'
      exact ⟨w, .tail hw, hitem⟩

/-- The bodies of all arms are come to. -/
theorem exists_inArms {t : Ty} {before : Snapshot} {arms : List Arm}
    (hj : j ∈ arms.flatMap Arm.body) :
    ∃ w, InArms around set t before p arms w ∧ w.item = j ∧ ∀ q ∈ w.plan, j.Suits q := by
  induction arms generalizing p with
  | nil => cases hj
  | cons a rest ih =>
    rw [flatMap_cons] at hj
    rcases mem_append.mp hj with hj | hj
    · cases a with
      | mk pat test body =>
        obtain ⟨w, hw, hitem⟩ := exists_inBody hj
        exact ⟨w, .head hw, hitem⟩
    · obtain ⟨w, hw, hitem⟩ := ih hj
      exact ⟨w, .tail hw, hitem⟩

end

namespace Visit

/-- A statement that is checked without an error, with nothing missing from its plan. -/
structure Clear (v : Visit) : Prop extends v.Ready where
  suits : ∀ q ∈ v.plan, v.item.Suits q
  quiet : Quiet v.ended.log

variable {v : Visit} {j : Item}

/-- Once a declaration has its plan, this is carried out. -/
theorem ended_of_declares (hno : ¬ v.item.Suits v.planned.2) :
    v.ended = v.ready.past (checkItem v.planned.1 v.item (some v.planned.2)) := by
  obtain ⟨around, set, item, plan, p⟩ := v
  cases item with
  | function | classType | traitType | implementation | moduleBlock =>
    unfold ended
    dsimp only
    rw [checkItem, checkItem]
    rfl
  | _ => simp at hno

/-- In a unit without errors the plan suits the item, also where it is made on the spot. -/
theorem Clear.planned (h : v.Clear) : v.item.Suits v.planned.2 := by
  obtain ⟨hq, hstands⟩ := h.toReady.planned
  have hcarried : Runs .any v.ready.store (checkItem v.planned.1 v.item (some v.planned.2)) :=
    checkItem_reports v.item v.item.placed_any h.fits hq.good hq.holds
      (fun p hp => Option.some.inj hp ▸ hstands)
      fun _ => rfl
  by_contra hno
  have hlog := hcarried.appends v.ready.log
  refine hno ((planned_reports (A := .any) (P := fun _ => False) h.sits.good v.set v.item.placed_any
    h.stands).quiet v.start.log (fun d hd => h.quiet d ?_) h.suits)
  rw [ended_of_declares hno]
  exact hlog.subset hd

/-- **Nothing is left out**: each statement inside one that is come to is come to, by the kind of
the statement around it. -/
theorem Clear.inside (h : v.Clear) (hj : j ∈ v.item.inner) :
    ∃ w, v.Inside w ∧ w.item = j ∧ w.Clear := by
  -- that it is come to without an error follows, since the errors of the inner one are kept
  suffices hin : ∃ w, v.Inside w ∧ w.item = j ∧ ∀ q ∈ w.plan, j.Suits q by
    obtain ⟨w, hw, rfl, hsuits⟩ := hin
    have hcomes := hw.comes h.toReady
    exact ⟨w, hw, rfl, hcomes.toReady, hsuits, fun d hd => h.quiet d (hcomes.before.log.subset hd)⟩
  have hi := h.fits
  obtain ⟨hq, hstands⟩ := h.toReady.planned
  have hsuits := h.planned
  unfold Inside
  generalize v.item = item at hj hi hsuits
  generalize v.planned = out at hq hstands hsuits
  dsimp only
  cases item with
  | function f =>
    obtain ⟨_, q⟩ := out
    -- the plan suits the item, so that its body is not skipped
    obtain ⟨q, rfl⟩ := hsuits
    exact exists_inFunction hj hstands
  | classType _ functions =>
    obtain ⟨_, q⟩ := out
    obtain ⟨id, plans, rfl, hplanned⟩ := hsuits
    obtain ⟨kind, m, hk, ho, hplans⟩ := hstands
    obtain ⟨w, hw, hitem⟩ :=
      exists_inFunctions hj (hq.inside ho hk) hi (fun t ht => holds_symbolType hq.good ht)
      (hplans.mono (Store.descends_inside hq.good ho.parent).advances) hplanned
    exact ⟨w, ⟨m, ho.members, hw⟩, hitem⟩
  | traitType _ functions =>
    obtain ⟨_, q⟩ := out
    obtain ⟨id, plans, rfl, hplanned⟩ := hsuits
    obtain ⟨kind, m, hk, ho, hplans⟩ := hstands
    obtain ⟨w, hw, hitem⟩ :=
      exists_inFunctions hj (hq.inside ho hk) hi (fun t ht => holds_traitSelf hq.good ht)
      (hplans.mono (Store.descends_inside hq.good ho.parent).advances) hplanned
    exact ⟨w, ⟨m, ho.members, hw⟩, hitem⟩
  | implementation d functions =>
    obtain ⟨_, q⟩ := out
    obtain ⟨scope, target, plans, rfl, hplanned, -⟩ := hsuits
    obtain ⟨hsits, hself, hplans⟩ := hq.behindTrait hstands d functions
    exact exists_inFunctions hj hsits hi hself hplans hplanned
  | moduleBlock _ body =>
    obtain ⟨_, q⟩ := out
    obtain ⟨id, plans, rfl, hplanned⟩ := hsuits
    obtain ⟨m, ho, -⟩ := hstands
    obtain ⟨w, hw, hitem⟩ := exists_inItems hj fun ps hps => Option.some.inj hps ▸ hplanned
    exact ⟨w, ⟨m, ho.members, hw⟩, hitem⟩
  | ifElse _ cond thenBody elseBody =>
    rcases mem_append.mp hj with hj | hj
    · obtain ⟨w, hw, hitem⟩ := exists_inBody hj
      exact ⟨w, .inl hw, hitem⟩
    · cases elseBody with
      | none => cases hj
      | some body =>
        obtain ⟨w, hw, hitem⟩ := exists_inBody hj
        exact ⟨w, .inr ⟨body, rfl, hw⟩, hitem⟩
  | whileLoop | forEach | loop | block => exact exists_inBody hj
  | matchOn => exact exists_inArms hj
  | _ => cases hj

end Visit

variable {items : List Item} {i j : Item}

/-- Everything inside is come to, by induction on the way in. -/
theorem Visited.within {v : Visit} (hv : Visited items v) (h : v.Clear) (hj : j.Within v.item) :
    ∃ w, Visited items w ∧ w.item = j ∧ w.Clear := by
  generalize hitem : v.item = i at hj
  induction hj generalizing v with
  | refl => exact ⟨v, hv, hitem, h⟩
  | inner hy _ ih =>
    obtain ⟨w, hw, rfl, hclear⟩ := h.inside (hitem ▸ hy)
    obtain ⟨r, hr, hrun⟩ := hv
    exact ih ⟨r, hr, hrun.tail hw⟩ hclear rfl

end Analysis

end UnitCheck
