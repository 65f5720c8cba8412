import UnitCheck.Proofs.Analysis.Visits

/-!
# Where jumps may stand

Whether a break, continue or return is in its place is read off the scopes that are open when the
check comes to it, and off the result that it is checked with. Both mirror the syntax
(`Visit.Ready`), so jumps are rejected by where they stand (`jumps_rejected_by_placement`). A return
may be rejected for its value as well (`enclosed_return_rejected`).
-/

namespace UnitCheck

open Checking List

namespace Analysis

variable {v : Visit}

namespace Visit

/-- Whether a statement is in the body of a loop, inside the innermost function around it. -/
def inLoop (v : Visit) : Bool := (v.around.takeWhile (· ≠ .function)).contains .loop

def inFunction (v : Visit) : Bool := v.around.contains .function

theorem inLoop_iff : v.inLoop = true ↔ v.around.head? = some .loop := by
  unfold inLoop
  rcases v.around with _ | ⟨_ | _, _⟩ <;> simp

/-- A break or continue asks the open scopes, which are those that the syntax has around it. -/
theorem insideLoop_found (h : v.Ready) {word : String} {pos : Position}
    (hitem : v.ended = v.start.past (reporting (insideLoop word pos))) :
    v.found = if v.inLoop then [] else [.mk' .invalidScope pos s!"{word} outside of a loop"] := by
  have hnearest : (v.start.store.table.nearest .loop [.functionBody]).isSome = true ↔
    v.inLoop = true := by
    rw [inLoop_iff, ← h.sits.scopes]
    exact Table.nearestIn_loop _
  refine found_eq ?_
  rw [hitem]
  show v.start.log ++ ((insideLoop word pos).run v.start.store).1 = _
  unfold insideLoop
  simp only [StateT.run_bind, StateT.run_get, pure_bind]
  rcases hfound : v.start.store.table.nearest .loop [.functionBody] with _ | x <;>
    rw [hfound] at hnearest
  · rw [if_neg fun hloop => by cases hnearest.mpr hloop]
    rfl
  · rw [if_pos (hnearest.mp rfl)]
    rfl

end Visit

/-- What is wrong with the value of a return, wherever the return stands. -/
def valueFaults (result : Option Ty) (pos : Position) : Option Expr → CheckM (List Diagnostic)
  | none =>
    match result with
    | some want => expect want .unit pos "return value"
    | none => return []
  | some e => do
    let t ← evaluateTake e
    match result with
    | none => return t.faults
    | some want =>
      match t.faults with
      | [] => expect want t.type e.pos "return value"
      | faults => return faults

/-- The place is judged by the expected result, the value by itself. -/
theorem returnValue_run (result : Option Ty) (pos : Position) (value : Option Expr) (s : Store) :
    ((returnValue result pos value).run s).1 =
      (if result.isSome then [] else [.mk' .invalidScope pos "return outside of a function"]) ++
        ((valueFaults result pos value).run s).1 := by
  cases result <;> cases value <;> rfl

/-- That the value has another type than the function is no matter of scopes. -/
theorem valueFaults_code {s : Store} (h : s.Good) {result : Option Ty}
    (hr : ∀ t ∈ result, s.Holds t)
    {value : Option Expr} (hv : ∀ e ∈ value, e.Fits) (pos : Position) :
    (∃ d ∈ ((valueFaults result pos value).run s).1, d.code = .invalidScope) ↔
      ∃ e ∈ value, ∃ d ∈ ((evaluateTake e).run s).1.faults, d.code = .invalidScope := by
  -- a mismatch of types has another code
  have hexpect : ∀ {s : Store} {want t : Ty}, s.Good → s.Holds want → s.Holds t → ∀ pos,
      ¬ ∃ d ∈ ((expect want t pos "return value").run s).1, d.code = .invalidScope := by
    intro s want t h hwant ht pos
    exact AllAbout.code_ne (expectAt_ends (ρ := .over .any fun _ => True) h hwant ht pos _).result
  cases value with
  | none =>
    refine iff_of_false ?_ (by simp)
    cases result with
    | none => exact fun ⟨_, hd, _⟩ => by cases hd
    | some want => exact hexpect h (hr want rfl) (h.registry.basic .unit) pos
  | some e =>
    have he : Ends (.over .any fun _ => True) s (evaluateTake e) _ :=
      evaluateTake_ends h (hv e rfl) e.placed_any
    cases result with
    | none =>
      simp only [valueFaults, Option.mem_some_iff, exists_eq_left']
      rfl
    | some want =>
      have hwant := hexpect he.good (he.evaluates.holds (hr want rfl)) he.result.holds e.pos
      simp only [valueFaults, Option.mem_some_iff, exists_eq_left', Checking.run_bind]
      split
      · next hnone => simpa [hnone] using hwant
      · rfl

/-- **Jumps are rejected by where they stand.** Take any statement that the last pass over a unit
comes to.

* A break or continue is rejected exactly where no loop is around it in its own function.
* A return is rejected exactly where no function is around it, or where its value is rejected on its
  own; what is wrong with the value comes after what is wrong with the place.
* What is found at the statement is among the errors of the analysis, unless they are limited. -/
theorem jumps_rejected_by_placement {items : List Item} (hi : Item.AllFit items)
    (hv : Visited items v) :
    (∀ pos, v.item = .breakLoop pos → (v.Rejected ↔ v.inLoop = false) ∧ v.found =
      if v.inLoop then [] else [.mk' .invalidScope pos "break outside of a loop"]) ∧
    (∀ pos, v.item = .continueLoop pos → (v.Rejected ↔ v.inLoop = false) ∧ v.found =
      if v.inLoop then [] else [.mk' .invalidScope pos "continue outside of a loop"]) ∧
    (∀ pos value, v.item = .returnWith pos value →
      (v.Rejected ↔ v.inFunction = false ∨
        ∃ e ∈ value, ∃ d ∈ ((evaluateTake e).run v.start.store).1.faults, d.code = .invalidScope) ∧
      v.found = (if v.inFunction then []
        else [.mk' .invalidScope pos "return outside of a function"]) ++
        ((valueFaults v.set.result pos value).run v.start.store).1) ∧
    v.found <:+: (everyPass items).2 ∧
    ∀ c : Config, c.maxErrors ≤ 0 → ∀ d ∈ v.found, d.isWarning = false →
      d ∈ (analyze c items).errors := by
  have hready := hv.ready hi
  -- break and continue differ in the word of their message
  have hloop : ∀ word pos, v.ended = v.start.past (reporting (insideLoop word pos)) →
      (v.Rejected ↔ v.inLoop = false) ∧
        v.found = if v.inLoop then []
        else [.mk' .invalidScope pos s!"{word} outside of a loop"] := by
    intro word pos hended
    have hfound := Visit.insideLoop_found hready hended
    refine ⟨?_, hfound⟩
    rw [Visit.Rejected, hfound]
    cases v.inLoop <;> simp [Diagnostic.mk']
  refine ⟨fun pos hitem => hloop "break" pos ?_, fun pos hitem => hloop "continue" pos ?_,
    fun pos value hitem => ?_, hv.found_infix hi, fun c hc d hd => hv.mem_errors hi hc hd⟩
  · rw [Visit.ended, hitem, checkItem]
  · rw [Visit.ended, hitem, checkItem]
  -- the check goes by the expected result, which is there just inside of functions
  · have hresult : v.set.result.isSome = v.inFunction := by
      rw [Bool.eq_iff_iff, hready.sits.result, Visit.inFunction, List.contains_iff_mem]
    have hfound : v.found =
      (if v.inFunction then [] else [.mk' .invalidScope pos "return outside of a function"]) ++
        ((valueFaults v.set.result pos value).run v.start.store).1 := by
      refine Visit.found_eq ?_
      rw [Visit.ended, hitem, checkItem, ← hresult, ← returnValue_run]
      rfl
    refine ⟨?_, hfound⟩
    have hfits : ∀ e ∈ value, e.Fits := by
      have hfits := hready.fits
      rwa [hitem] at hfits
    rw [← valueFaults_code hready.sits.good hready.sits.holds hfits pos, Visit.Rejected, hfound]
    cases v.inFunction <;> simp [Diagnostic.mk']

/-- A break in a loop, and one behind it. -/
theorem jumps_rejected_by_placement_behind_loop :
    let items : List Item := [.loop .unknown [.breakLoop .unknown], .breakLoop .unknown]
    let plan := (declared items).1.1.headD .none
    let start : Point := ⟨[], (lastRound items).2⟩
    let loop : Visit := ⟨[], {}, .loop .unknown [.breakLoop .unknown], some plan, start⟩
    let inner : Visit := ⟨[.loop], {}, .breakLoop .unknown, none, start.opened .loop⟩
    let outer : Visit :=
      ⟨[], {}, .breakLoop .unknown, some ((declared items).1.1.tail.headD .none), loop.ended⟩
    Visited items inner ∧ ¬ inner.Rejected ∧ Visited items outer ∧ outer.Rejected ∧
      .mk' .invalidScope .unknown "break outside of a loop" ∈ (analyze {} items).errors := by
  intro items plan start loop inner outer
  have hinner : Visited items inner := ⟨loop, .head, .single .head⟩
  have houter : Visited items outer := ⟨outer, .tail .head, .refl⟩
  have hfits : Item.AllFit items := by simp [items]
  have hin := (jumps_rejected_by_placement hfits hinner).1 .unknown rfl
  have hout := (jumps_rejected_by_placement hfits houter).1 .unknown rfl
  refine ⟨hinner, fun h => Bool.noConfusion (hin.1.mp h), houter, hout.1.mpr rfl, ?_⟩
  refine (jumps_rejected_by_placement hfits houter).2.2.2.2 {} (by decide) _ ?_ rfl
  rw [hout.2]
  exact mem_singleton_self _

/-- An enclosed return whose value is a path through a variable: it is rejected for its scope. -/
theorem enclosed_return_rejected :
    let head : FunctionHead := ⟨⟨.unknown, ⟨"f", .unknown⟩, true⟩, [],
      [⟨⟨"v", .unknown⟩, some (.named ["int"] [] .unknown), false⟩],
      some (.named ["int"] [] .unknown)⟩
    (analyze {} [.function (.mk head
      (some [.returnWith .unknown (some (.path ["v", "y"] .unknown))]))]).errors.map (·.code) =
      [.invalidScope] := by
  decide +kernel

end Analysis

end UnitCheck
