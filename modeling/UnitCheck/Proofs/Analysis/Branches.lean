import UnitCheck.Proofs.Analysis.Paths

/-!
# Where branches start

The branches of a statement are checked one after the other, and each is to start from what was
known when the first one did. A snapshot brings back which variables are initialized and moved; the
records that a branch makes under its own scopes are released when they are left. Records that were
there before are lost only with a move: it drops all records of its variable, and they are not
brought back.

`branches_start_alike` says so exactly: at the start of a later branch each variable is held as it
was before the first one, but without records if an earlier branch ended with the variable moved.
That this makes a difference is shown by `records_lost_to_a_move`.
-/

namespace UnitCheck

open Checking List Ledger

variable {s s' : Store} {id : Int} {P : Int → Prop} {k : Holding} {kind : ScopeKind} {t : Ty}

namespace Store

theorem filed_empty : Filed {} := fun _ _ ha => by cases ha

/-- A variable does not belong to a scope that was opened after it was declared. -/
theorem opened_undeclared (h : s.Good) (h' : s'.Good) (ha : (s.opened kind).After s') (id : Int) :
    s.Undeclared s' id := by
  intro htracked hd
  obtain ⟨i, rfl, hlt⟩ := h.tracked_lt htracked
  obtain ⟨y, hy, hin⟩ := ha.declared hd
  have hx := Array.getElem?_eq_getElem hlt
  obtain ⟨y', hy', hst⟩ := ((s.table.grows_entered kind).trans ha.table).symbol hx
  obtain rfl := Option.mem_unique hy hy'
  rw [hst.scope_eq] at hin
  exact absurd (h'.table.inside_le hin) (Nat.not_le_of_lt (h.table.links hx).home_lt)

/-- Where a branch has ended with a variable moved, and no record has been made since, the variable
has no records. -/
theorem active_eq_nil_of_moved (h : s.Good) (hu : Ledger.Under (fun _ => False) s.ledger s'.ledger)
    (hm : Snapshot.isMoved s.ledger.snapshot id = true) : s'.ledger.active id = [] := by
  rw [Snapshot.isMoved, lookup_snapshot] at hm
  cases hk : s.ledger.get? id with
  | none =>
    rw [hk] at hm
    cases hm
  | some k =>
    rw [hk] at hm
    have hspent : s.ledger.active id = [] := by
      rw [active_of_get? hk]
      exact h.spent id k hk hm
    exact sublist_nil.mp (hspent ▸ hu.sublist id)

end Store

namespace Analysis

section

variable {α : Type} {P : Int → Prop} {p q : Point} {set : Setting}

theorem EndsUnder.filed {x : AnalysisM α} {Q : Store → α → Prop}
    (hx : EndsUnder .any (fun scope => scope = s.table.current) s x Q) (h : s.Good) (hs : s.Filed)
    (log : List Diagnostic) : ((x.run log).run s).2.Filed := by
  refine (hx.reaches log).filed ?_ hs
  rintro scope rfl
  exact h.alive_current

theorem inScope_undeclared (h : p.store.Good) (pos : Position) {act : AnalysisM Unit}
    (hact : Runs .any (p.store.opened kind) act) (id : Int) :
    p.store.Undeclared (p.past (inScope kind pos act)).store id := by
  rw [inScope_past h pos hact]
  exact Store.opened_undeclared h (hact.good p.log) (hact.reaches p.log) id

/-! ## Arms -/

theorem past_checkArms_cons (set : Setting) (t : Ty) (before : Snapshot) (a : Arm)
    (rest : List Arm) :
    p.past (checkArms set t before (a :: rest)) =
      ((p.restored before).past (checkArm set t a)).past (checkArms set t before rest) := by
  rw [checkArms]
  rfl

/-- An arm is gone through once those before it have been. -/
theorem past_checkArms_append (set : Setting) (t : Ty) (before : Snapshot)
    (earlier later : List Arm) :
    p.past (checkArms set t before (earlier ++ later)) =
      (p.past (checkArms set t before earlier)).past (checkArms set t before later) := by
  induction earlier generalizing p with
  | nil =>
    have hnone : checkArms set t before [] = pure [] := by rw [checkArms]
    rw [hnone]
    rfl
  | cons a earlier ih => rw [cons_append, past_checkArms_cons, past_checkArms_cons, ih]

theorem checkArm_undeclared (h : p.Ready set) (ht : p.store.Holds t) {a : Arm}
    (ha : a.Fits) (id : Int) :
    p.store.Undeclared (p.past (checkArm set t a)).store id := by
  cases a with
  | mk pat guard body =>
    have hbind : Issues .any _ _ _ := issues_bindArm (h.opened .block).good pat ht ha.1
    rw [checkArm_eq]
    exact inScope_undeclared h.good pat.pos (h.prepared hbind ha.2) id

/-- Variables that the arms declare belong to the arms: none that was there is declared again. -/
theorem checkArms_undeclared {before : Point} {arms : List Arm} (ha : Arm.AllFit arms)
    (hb : before.Ready set) (ht : before.store.Holds t) (h : p.store.Good)
    (hr : before.store.Reaches (fun _ => False) p.store) (id : Int) :
    p.store.Undeclared (p.past (checkArms set t before.snapshot arms)).store id := by
  induction arms generalizing p with
  | nil =>
    rw [checkArms]
    exact Store.undeclared_of_trail rfl
  | cons a rest ih =>
    have h₁ := hb.restored h hr
    have hback := restored_reaches h hb.good hr
    have hr₁ := hr.trans hback
    have harm := h₁.arm (hr₁.holds ht) ha.1
    have hr₂ := hr₁.trans harm.past_reaches
    have hrest := hb.arms ht ha.2 harm.past_good hr₂
    have hfirst := (checkArm_undeclared h₁ (hr₁.holds ht) ha.1 id).trans
      (ih ha.2 harm.past_good hr₂) harm.past_reaches hrest.past_reaches.trail
    have hsame : p.store.Undeclared (p.restored before.snapshot).store id :=
      Store.undeclared_of_trail rfl
    rw [past_checkArms_cons]
    exact hsame.trans hfirst hback (harm.past_reaches.trans hrest.past_reaches).trail

/-! ## Going back -/

/-- What is held after going back to a snapshot: all that was held then, except for the records of a
variable that a branch has moved. -/
theorem restored_get? {ends : List Snapshot} (hp : p.store.Filed)
    (hr : p.store.Reaches (fun _ => False) q.store) (hspares : p.store.Spares ends q.store)
    (hgone : ∀ e ∈ ends, e.isMoved id = true → q.store.ledger.active id = [])
    (hno : p.store.Undeclared q.store id) (hk : p.store.ledger.get? id = some k) :
    (q.restored p.snapshot).store.ledger.get? id =
      some { k with active := if ends.any (·.isMoved id) then [] else k.active } := by
  have hundeclared := hno (isTracked_iff.mpr ⟨k, hk⟩)
  obtain ⟨k', hk', hlabel⟩ := hr.holdings hk
  have hactive : k'.active = if ends.any (·.isMoved id) then [] else k.active := by
    split
    next hmoved =>
      obtain ⟨e, he, hm⟩ := List.any_eq_true.mp hmoved
      rw [← active_of_get? hk', hgone e he hm]
    next hmoved =>
      rw [Bool.not_eq_true, List.any_eq_false] at hmoved
      -- no record is missing, and none has been added
      have hkept := hspares hp hundeclared hk hk' fun e he => Bool.not_eq_true _ ▸ hmoved e he
      have hleft := hr.records.sublist id
      rw [active_of_get? hk, active_of_get? hk'] at hleft
      exact hleft.antisymm hkept
  -- name and mutability never change, and the rest comes from the snapshot
  obtain ⟨hname, hmutable⟩ := Prod.mk.inj (hlabel hundeclared)
  show (q.store.ledger.restore p.store.ledger.snapshot).get? id = _
  rw [get?_restore, hk', lookup_snapshot, hk, ← hactive, ← hname, ← hmutable]
  rfl

end

/-! ## Starts of branches -/

section

variable {p : Point} {set : Setting}

/-- The second branch starts from what was known before the first one. -/
theorem elseBranch_start (h : p.Ready set) (hfiled : p.store.Filed) {body : List Item}
    (hi : Item.AllFit body) (hk : p.store.ledger.get? id = some k) :
    let ended := p.past (checkBlock set .block body)
    (ended.restored p.snapshot).store.ledger.get? id =
      some { k with active := if ended.snapshot.isMoved id then [] else k.active } := by
  have hthen := h.block .block hi
  have hkeeps := hthen.keeps p.log fun _ => False.elim
  have hno : p.store.Undeclared (p.past (checkBlock set .block body)).store id := by
    rw [checkBlock_eq]
    exact inScope_undeclared h.good _ ((h.opened .block).body hi) id
  have hstart := restored_get? hfiled hthen.past_reaches hkeeps.spares ?_ hno hk
  · rw [any_cons, any_nil, Bool.or_false] at hstart
    exact hstart
  · intro e he hm
    rw [mem_singleton.mp he] at hm
    exact Store.active_eq_nil_of_moved hthen.past_good (.refl _) hm

/-- So does an arm behind others. -/
theorem laterArm_start (h : p.Ready set) (hfiled : p.store.Filed) (ht : p.store.Holds t)
    {earlier : List Arm} (ha : Arm.AllFit earlier) (hk : p.store.ledger.get? id = some k) :
    let check := checkArms set t p.snapshot earlier
    ((p.past check).restored p.snapshot).store.ledger.get? id =
      some { k with active := if (p.result check).any (·.isMoved id) then [] else k.active } := by
  have harms := h.arms ht ha h.good (.refl _)
  have hends := harms.past_result
  refine restored_get? hfiled harms.past_reaches hends.spares ?_
    (checkArms_undeclared ha h ht h.good (.refl _) id) hk
  intro e he hm
  obtain ⟨ended, hgood, rfl, hu⟩ := hends.taken e he
  exact Store.active_eq_nil_of_moved hgood hu hm

end

/-- When the second branch of an `if`, or an arm of a `match` behind others, begins to be checked,
each variable is held with the same name, initialized or not, moved or not and from where, and with
the same records, unless an earlier branch has ended with the variable moved; then it has no
records. -/
theorem branches_start_alike {p : Point} {set : Setting} (h : p.store.Good) (hfiled : p.store.Filed)
    (hset : set.Holds p.store) :
    (∀ pos cond thenBody elseBody, (Item.ifElse pos cond thenBody elseBody).Fits →
      let tested := p.past (reporting (condition cond "if condition"))
      let ended := tested.past (checkBlock set .block thenBody)
      let start := ended.restored tested.snapshot
      p.past (checkItem set (.ifElse pos cond thenBody elseBody) none) =
        (start.past (checkElse set elseBody)).joined ended.snapshot ∧
      ∀ id k, tested.store.ledger.get? id = some k → start.store.ledger.get? id =
        some { k with active := if ended.snapshot.isMoved id then [] else k.active }) ∧
    ∀ pos scrutinee earlier arm later, (Item.matchOn pos scrutinee (earlier ++ arm :: later)).Fits →
      let t := p.result (evaluateScrutinee scrutinee)
      let evaluated := p.past (evaluateScrutinee scrutinee)
      let check := checkArms set t evaluated.snapshot
      let start := (evaluated.past (check earlier)).restored evaluated.snapshot
      p.past (checkItem set (.matchOn pos scrutinee (earlier ++ arm :: later)) none) =
        ((start.past (checkArm set t arm)).past (check later)).past
          (joinArms (evaluated.result (check (earlier ++ arm :: later)))) ∧
      ∀ id k, evaluated.store.ledger.get? id = some k → start.store.ledger.get? id =
        some { k with active :=
          if (evaluated.result (check earlier)).any (·.isMoved id) then [] else k.active } := by
  constructor
  · intro pos cond thenBody elseBody hi
    rw [Item.Fits] at hi
    have hcond := issues_condition h hi.1 "if condition"
    refine ⟨by rw [checkItem]; rfl, fun id k hk => ?_⟩
    exact elseBranch_start (hcond.ready ⟨h, hset⟩) (hcond.filed h hfiled p.log) hi.2.1 hk
  · intro pos scrutinee earlier arm later hi
    rw [Item.Fits, Arm.allFit_append] at hi
    have hscrutinee : Issues .any _ _ _ := issues_evaluateScrutinee h hi.1
    constructor
    -- the arms are cut behind the earlier ones, at the point from which `arm` starts
    · rw [matchOn_eq, Point.past_bind, Point.past_ledger, Point.past_bind]
      rw [← past_checkArms_cons, ← past_checkArms_append]
      rfl
    · exact fun id k hk => laterArm_start (hscrutinee.ready ⟨h, hset⟩)
        (hscrutinee.filed h hfiled p.log) hscrutinee.past_result hi.2.1 hk

/-! ## A token that is borrowed -/

def borrowing : Item :=
  .letVar ⟨.unknown, ⟨"r", .unknown⟩, none,
    some (.unary .amp (.ident "t" .unknown) .unknown), false⟩

theorem borrowing_fits : borrowing.Fits := by
  have hamp : Operator.amp ∈ Operator.unary := by decide
  simp [borrowing, hamp]

/-- At the start of a function with a parameter of type `Token`. -/
def tokenDeclared : Point :=
  (⟨[], ((register (.named "Token" [])).run {}).2⟩ : Point).past
    (declareParams none bindingInLoop.head [.named "Token" []])

def tokenBorrowed : Point := tokenDeclared.past (checkItem {} borrowing none)

theorem tokenBorrowed_good : tokenBorrowed.store.Good ∧ tokenBorrowed.store.Filed := by
  have hregister : Ends (.over .any fun _ => False) {} (register (.named "Token" [])) fun s' u =>
      u = .named "Token" [] ∧ s'.Holds (.named "Token" []) :=
    register_compound_ends Store.good_empty ⟨nofun, nofun, nofun⟩ nofun
  have hfiled := hregister.evaluates.filed (fun _ => False.elim) Store.filed_empty
  have hdeclare : Issues .any ((register (.named "Token" [])).run {}).2
      (declareParams none bindingInLoop.head [.named "Token" []]) fun _ _ => True :=
    issues_declareParams hregister.good (by simp) (FunctionHead.placed_any _)
      (by simpa using hregister.result.2)
  have hlet : Runs .any tokenDeclared.store (checkItem {} borrowing none) :=
    checkItem_alone_reports borrowing borrowing_fits (hdeclare.good []) (by simp [Setting.Holds])
  exact ⟨hlet.good tokenDeclared.log, hlet.filed (hdeclare.good [])
    (hdeclare.filed hregister.good hfiled []) tokenDeclared.log⟩

/-- A token that the first branch borrows again is held as before when the second one starts. -/
theorem branches_start_alike_borrowed_again :
    let tested :=
      tokenBorrowed.past (reporting (condition (.literal (.bool true) .unknown) "if condition"))
    let ended := tested.past (checkBlock {} .block [borrowing])
    (tested.store.ledger.active 0).length = 1 ∧
      (ended.restored tested.snapshot).store.ledger.get? 0 = tested.store.ledger.get? 0 := by
  intro tested ended
  refine ⟨by decide +kernel, ?_⟩
  have hset : Setting.Holds {} tokenBorrowed.store := by simp [Setting.Holds]
  have hstart := (branches_start_alike tokenBorrowed_good.1 tokenBorrowed_good.2 hset).1 .unknown
    (.literal (.bool true) .unknown) [borrowing] none (by simp [borrowing_fits])
  obtain ⟨k, hk⟩ := Option.isSome_iff_exists.mp
    (by decide +kernel : (tested.store.ledger.get? 0).isSome = true)
  have hunmoved : ended.snapshot.isMoved 0 = false := by decide +kernel
  rw [hk, hstart.2 0 k hk, hunmoved]
  rfl

/-- The first branch moves the token. When the second one starts, it is not known any more that the
token is borrowed. -/
theorem records_lost_to_a_move :
    let tested :=
      tokenBorrowed.past (reporting (condition (.literal (.bool true) .unknown) "if condition"))
    let ended := tested.past (checkBlock {} .block [roundBinding])
    tokenBorrowed.store.Good ∧ tokenBorrowed.store.Filed ∧ ended.log = [] ∧
      (tested.store.ledger.active 0).length = 1 ∧
      (ended.restored tested.snapshot).store.ledger.active 0 = [] := by
  refine ⟨tokenBorrowed_good.1, tokenBorrowed_good.2, List.isEmpty_iff.mp (by decide +kernel),
    by decide +kernel, List.isEmpty_iff.mp (by decide +kernel)⟩

end Analysis

end UnitCheck
