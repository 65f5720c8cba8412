import UnitCheck.Proofs.Analysis.Filing
import UnitCheck.Proofs.Analysis.Paths
import UnitCheck.Proofs.Scoping.Lexical

/-!
# What the last pass comes to

The check comes to the statements of a unit one after the other and one inside the other
(`Visited`). Each of them is checked in the scopes that the syntax asks for: the loops and functions
among the open scopes are those in whose bodies it stands (`Sits.scopes`).

* `Visit.Inside` — one step from a statement to those in its bodies; `Inside.comes` says what it
  preserves.
* `Visited.comes` — the run: what is found at a statement is kept to the end, and so is what is
  declared and used.
* `Visited.mem_errors` — what is found at a statement is among the errors of the analysis.
-/

namespace UnitCheck

open Checking Relation List Option Store

/-- What a jump may leave. -/
inductive Enclosure where
  | loop | function
  deriving DecidableEq

def ScopeKind.enclosure : ScopeKind → Option Enclosure
  | loop => some .loop
  | functionBody => some .function
  | _ => none

/-! ## Open scopes -/

namespace Table

variable {t t' : Table} {i : Nat} {ss : List Scope}

/-- The loops and functions that a scope is in, from the inside out. -/
def enclosures (t : Table) (i : Nat) : List Enclosure :=
  ((t.enclosing i).map Scope.kind).filterMap ScopeKind.enclosure

theorem Walk.enclosures_eq (hw : t.Walk i ss) (h : t.Consistent) :
    t.enclosures i = (ss.map Scope.kind).filterMap ScopeKind.enclosure := by
  have hi : i < t.scopes.size := by
    cases hw with
    | root hs _ | up hs _ _ => exact lt_of_get? hs
  rw [hw.unique (h.walk hi), enclosures]

theorem Grows.enclosures_eq (hg : t.Grows t') (h : t.Consistent) (h' : t'.Consistent)
    (hi : i < t.scopes.size) : t'.enclosures i = t.enclosures i := by
  obtain ⟨ss', hw', heq⟩ := (h.walk hi).kept (g := Scope.kind) hg.scope
  rw [hw'.enclosures_eq h', heq, enclosures]

/-- One scope further in. -/
theorem Consistent.enclosures_below (h : t.Consistent) {m : Nat} {x : Scope}
    (hx : t.scopes[m]? = some x)
    (hp : x.parent = some i) : t.enclosures m = x.kind.enclosure.toList ++ t.enclosures i := by
  have hi := (h.parent_below hx hp).1
  rw [(Walk.up hx hp (h.walk (hi.trans (lt_of_get? hx)))).enclosures_eq h, enclosures, map_cons,
    filterMap_cons]
  cases x.kind.enclosure <;> rfl

/-- The search for a loop goes no further than the innermost loop or function. -/
theorem nearestIn_loop (ss : List Scope) : (nearestIn .loop [.functionBody] ss).isSome = true ↔
    ((ss.map Scope.kind).filterMap ScopeKind.enclosure).head? = some .loop := by
  induction ss with
  | nil => simp [nearestIn]
  | cons s rest ih =>
    rw [nearestIn, map_cons, filterMap_cons]
    cases s.kind <;> simp [ScopeKind.enclosure, ih]

end Table

namespace Analysis

/-- In the scope of a symbol's members. -/
def Point.inside (p : Point) (m : Nat) : Point := { p with store := p.store.inside m }

/-! ## What is kept -/

/-- What was found is kept, and so is what was declared and used. -/
structure Point.Before (p q : Point) : Prop where
  log : p.log <+: q.log
  table : p.store.table.Grows q.store.table

namespace Point

variable {p q : Point}

theorem Before.trans {r : Point} (h : p.Before q) (h' : q.Before r) : p.Before r :=
  ⟨h.log.trans h'.log, h.table.trans h'.table⟩

theorem before_of_eq (hlog : p.log <+: q.log)
    (htable : q.store.table = p.store.table) : p.Before q :=
  ⟨hlog, htable ▸ .refl _⟩

/-- A scope is left, or it is reported that this is not possible. -/
theorem before_left (p : Point) (faults : ScopeFault → List Diagnostic) : p.Before (p.past (do
    match ← leave with
    | .ok _ => pure ()
    | .error fault => report (faults fault))) := by
  have htable : p.store.table.Grows (leave.run p.store).2.table := by
    unfold leave
    rw [Checking.run_bind, onTable_run (Table.exit_eq _)]
    cases (p.store.table.scope p.store.table.current).parent with
    | none => exact .refl _
    | some parent => exact Table.grows_goto _ _
  have hleft : p.Before (p.past (liftM leave : AnalysisM _)) := ⟨prefix_rfl, htable⟩
  rw [past_bind]
  refine hleft.trans ?_
  split
  · exact before_of_eq prefix_rfl rfl
  · exact before_of_eq (prefix_append _ _) rfl

theorem before_within {α : Type} {act : AnalysisM α} {m : Nat} {pos : Position} {fallback : α}
    (hp : p.store.Good)
    (hm : p.store.table.Parent m p.store.table.current) :
    ((p.inside m).past act).Before (p.past (within (some m) pos fallback act)) := by
  unfold past Analysis.within
  rw [lift_bind_run (reenter_run hp hm)]
  exact before_left _ _

theorem before_restored (p : Point) (before : Snapshot) : p.Before (p.restored before) :=
  before_of_eq prefix_rfl rfl

theorem before_joined (p : Point) (other : Snapshot) : p.Before (p.joined other) :=
  before_of_eq prefix_rfl rfl

end Point

/-- Nothing that was found is taken back, and nothing that was declared. -/
theorem EndsUnder.before {α : Type} {P : Int → Prop} {p : Point} {x : AnalysisM α}
    {Q : Store → α → Prop}
    (hx : EndsUnder .any P p.store x Q) : p.Before (p.past x) :=
  ⟨hx.appends p.log, hx.past_reaches.table⟩

/-! ## The way of the check -/

/-- A statement that the check comes to. -/
structure Visit where
  /-- The loops and functions in whose bodies it stands, from the inside out. -/
  around : List Enclosure
  set : Setting
  item : Item
  plan : Option Plan
  start : Point

section

variable (around : List Enclosure) (set : Setting)

/-- One of the statements of a body, or with plans one of the items of a unit or module. -/
inductive InItems : Point → List Item → Option (List Plan) → Visit → Prop where
  | head : InItems p (i :: rest) plans ⟨around, set, i, plans.map (·.headD .none), p⟩
  | tail : InItems (p.past (checkItem set i (plans.map (·.headD .none)))) rest
    (plans.map List.tail) v →
      InItems p (i :: rest) plans v

/-- One of the statements in the body of a function. -/
def InFunction (self : Option Ty) (p : Point) (f : Function) (plan : Option FunctionPlan)
    (v : Visit) : Prop :=
  ∃ q ∈ plan, ∃ m ∈ (p.store.table.symbol q.symbol).members, ∃ body ∈ f.body,
    InItems (.function :: around) { set with result := some q.signature.result }
      ((p.inside m).past (declareParams self f.head q.signature.params)) body none v

inductive InFunctions (self : Option Ty) (only : Bool) :
    Point → List Function → List (Option FunctionPlan) → Visit → Prop where
  | head : InFunction around set self p f (plans.headD none) v →
    InFunctions self only p (f :: rest) plans v
  | tail : InFunctions self only (p.past do
      if !only || f.body.isSome
      then checkFunction set self f (plans.headD none)) rest plans.tail v →
        InFunctions self only p (f :: rest) plans v

/-- One of the statements in the arms of a match. -/
inductive InArms (t : Ty) (before : Snapshot) : Point → List Arm → Visit → Prop where
  | head : InItems around set
    (((p.restored before).opened .block).past (bindArm pat t test)) body none v →
      InArms t before p (.mk pat test body :: rest) v
  | tail : InArms t before ((p.restored before).past (checkArm set t a)) rest v →
      InArms t before p (a :: rest) v

end

/-- The statements of a body, or with plans the items of a unit or module. -/
def checkAll (set : Setting) (items : List Item) : Option (List Plan) → AnalysisM Unit
  | some plans => checkItems set items plans
  | none => checkBody set items

theorem checkAll_cons (set : Setting) (i : Item) (rest : List Item) (plans : Option (List Plan)) :
    checkAll set (i :: rest) plans =
      (checkItem set i (plans.map (·.headD .none)) >>= fun _ =>
        checkAll set rest (plans.map List.tail)) := by
  cases plans with
  | none => rw [checkAll, checkBody]; rfl
  | some plans => rw [checkAll, checkItems]; rfl

theorem checkFunctions_cons (set : Setting) (self : Option Ty) (only : Bool) (f : Function)
    (rest : List Function)
    (plans : List (Option FunctionPlan)) : checkFunctions set self only (f :: rest) plans =
      ((do if !only || f.body.isSome then checkFunction set self f (plans.headD none)) >>= fun _ =>
        checkFunctions set self only rest plans.tail) := by
  rw [checkFunctions]
  split <;> rfl

/-- What comes before the functions of an implementation. -/
def checkImplemented (d : ImplHead) (functions : List Function) : AnalysisM Unit :=
  match d.trait with
  | some path => checkTrait path functions d.pos
  | none => pure ()

namespace Visit

def ended (v : Visit) : Point := v.start.past (checkItem v.set v.item v.plan)

/-- What a declaration is checked with, and from where on. -/
def planned (v : Visit) : Setting × Plan := v.start.result (Analysis.planned v.set v.item v.plan)

def ready (v : Visit) : Point := v.start.past (Analysis.planned v.set v.item v.plan)

theorem past_planned (v : Visit) (act : Setting × Plan → AnalysisM Unit) :
    v.start.past (Analysis.planned v.set v.item v.plan >>= act) =
      v.ready.past (act v.planned) := rfl

/-- From a statement or declaration the check comes to those right inside it. -/
def Inside (v w : Visit) : Prop :=
  let table := v.ready.store.table
  match v.item, v.planned with
  | .function f, (set, .function plan) => InFunction v.around set none v.ready f (some plan) w
  | .classType _ functions, (set, .methods id plans) =>
    ∃ m ∈ (table.symbol id).members,
      InFunctions v.around set (table.symbol id).type false (v.ready.inside m) functions plans w
  | .traitType _ functions, (set, .methods id plans) =>
    let self := match table.member? (table.symbol id) "Self" with
      | some self => (table.symbol self).type
      | none => some .invalid
    ∃ m ∈ (table.symbol id).members,
      InFunctions v.around set self true (v.ready.inside m) functions plans w
  | .implementation d functions, (set, .implementation scope target plans) =>
    InFunctions v.around set (some target) false
      ((v.ready.inside scope).past (checkImplemented d functions))
      functions plans w
  | .moduleBlock _ body, (set, .moduleBody id plans) =>
    ∃ m ∈ (table.symbol id).members, InItems v.around set (v.ready.inside m) body (some plans) w
  | .ifElse _ cond thenBody elseBody, _ =>
    let tested := v.start.past (reporting (condition cond "if condition"))
    let ended := tested.past (checkBlock v.set .block thenBody)
    InItems v.around v.set (tested.opened .block) thenBody none w ∨ ∃ body ∈ elseBody,
      InItems v.around v.set ((ended.restored tested.snapshot).opened .block) body none w
  | .whileLoop _ cond body, _ =>
    InItems (.loop :: v.around) v.set
      ((v.start.past (reporting (condition cond "while condition"))).opened .loop) body none w
  | .forEach _ var iter body, _ =>
    let inside := (v.start.past (evaluateIter iter)).opened .loop
    InItems (.loop :: v.around) v.set
      (inside.past (declareLoopVar var (v.start.result (evaluateIter iter)))) body none w
  | .loop _ body, _ => InItems (.loop :: v.around) v.set (v.start.opened .loop) body none w
  | .matchOn _ scrutinee arms, _ =>
    let evaluated := v.start.past (evaluateScrutinee scrutinee)
    InArms v.around v.set
      (v.start.result (evaluateScrutinee scrutinee)) evaluated.snapshot evaluated arms w
  | .block _ body, _ => InItems v.around v.set (v.start.opened .block) body none w
  | _, _ => False

end Visit

/-- A statement that the last pass over a unit comes to. -/
def Visited (items : List Item) (v : Visit) : Prop :=
  ∃ r, InItems [] {} ⟨[], (lastRound items).2⟩ items (some (declared items).1.1) r ∧
    ReflTransGen Visit.Inside r v

/-! ## What is open on the way -/

/-- The open scopes and the setting are those of a statement that stands in these loops and
functions. -/
structure Sits (around : List Enclosure) (set : Setting) (p : Point) :
    Prop extends p.Ready set where
  scopes : p.store.table.enclosures p.store.table.current = around
  result : set.result.isSome = true ↔ .function ∈ around

section

variable {around : List Enclosure} {set : Setting} {p q : Point} {P : Int → Prop}

section

variable (h : Sits around set p)
include h

/-- Nothing that is done in the current scope changes what the scope is in. -/
theorem Sits.reaches (hq : q.store.Good) (hr : p.store.Reaches P q.store) : Sits around set q where
  good := hq
  holds := h.holds.mono hr
  scopes := by
    rw [hr.current, hr.table.enclosures_eq h.good.table.toConsistent hq.table.toConsistent
      h.good.table.current_lt]
    exact h.scopes
  result := h.result

theorem Sits.scopes_below {s : Store} (hd : p.store.Descends s) {x : Scope}
    (hx : s.table.scopes[s.table.current]? = some x) :
    s.table.enclosures s.table.current = x.kind.enclosure.toList ++ around := by
  obtain ⟨x', hx', hp⟩ := hd.parent
  obtain rfl := mem_unique hx hx'
  rw [hd.good.table.enclosures_below hx hp, hd.table.enclosures_eq h.good.table.toConsistent
    hd.good.table.toConsistent h.good.table.current_lt, h.scopes]

theorem Sits.opened (kind : ScopeKind) (hk : kind ≠ .functionBody) :
    Sits (kind.enclosure.toList ++ around) set (p.opened kind) where
  toReady := h.toReady.opened kind
  scopes := h.scopes_below (descends_opened h.good kind) (p.store.table.entered_scope kind)
  result := by
    rw [h.result]
    cases kind <;> first | exact absurd rfl hk | simp [ScopeKind.enclosure]

variable {kind : SymbolKind} {id m : Nat} (ho : p.store.table.Opens p.store.table.current kind id m)
include ho

theorem Sits.scopes_inside :
    (p.store.inside m).table.enclosures m = kind.body.enclosure.toList ++ around := by
  have hd := descends_inside h.good ho.parent
  obtain ⟨y, hy, rfl, hm, -⟩ := ho
  obtain ⟨x, hx, hk⟩ := (h.good.table.links hy).members_scope m hm
  rw [← hk]
  exact h.scopes_below hd hx

/-- The scope of a type or module adds nothing to what stands around. -/
theorem Sits.inside (hk : kind ≠ .function) : Sits around set (p.inside m) where
  good := (descends_inside h.good ho.parent).good
  holds := h.holds.descends (descends_inside h.good ho.parent)
  scopes := by
    have hbody : kind.body.enclosure = none := by
      cases kind <;> first | exact absurd rfl hk | rfl
    have hscopes := h.scopes_inside ho
    rwa [hbody] at hscopes
  result := h.result

end

/-- The scope of a function adds the function, whose result is expected in it. -/
theorem Sits.inside_function (h : Sits around set p) {id m : Nat}
    (ho : p.store.table.Opens p.store.table.current .function id m) {t : Ty}
    (ht : p.store.Holds t) :
    Sits (.function :: around) { set with result := some t } (p.inside m) where
  good := (descends_inside h.good ho.parent).good
  holds := fun _ hu => some.inj hu ▸ ht
  scopes := h.scopes_inside ho
  result := by simp

theorem EndsUnder.sits {α : Type} {x : AnalysisM α} {Q : Store → α → Prop}
    (hx : EndsUnder .any P p.store x Q)
    (h : Sits around set p) : Sits around set (p.past x) :=
  h.reaches hx.past_good hx.past_reaches

/-- Back at what was known before a branch. -/
theorem Sits.restored (h : Sits around set p) (hq : q.store.Good)
    (hr : p.store.Reaches (fun _ => False) q.store) :
    Sits around set (q.restored p.snapshot) :=
  h.reaches (restored_good hq h.good hr) (hr.trans (restored_reaches hq h.good hr))

end

/-- A statement as the check should come to it. -/
structure Visit.Ready (v : Visit) : Prop where
  sits : Sits v.around v.set v.start
  fits : v.item.Fits
  stands : ∀ p ∈ v.plan, p.Stands v.start.store v.start.store.table.current

variable {items : List Item}

section

variable {around : List Enclosure} {set : Setting} {p q : Point} {v : Visit} {act : AnalysisM Unit}
  {self : Option Ty}
  {plans : List (Option FunctionPlan)} {kind : ScopeKind} {pos : Position}
    {f : Function} {only : Bool}

/-- A statement as the check should come to it on the way to the point `q`, and what it leaves
behind is kept. -/
structure Visit.Comes (v : Visit) (q : Point) : Prop extends v.Ready where
  before : v.ended.Before q

theorem Visit.Comes.trans {r : Point} (h : v.Comes q) (hqr : q.Before r) : v.Comes r :=
  ⟨h.toReady, h.before.trans hqr⟩

theorem Visit.Comes.inScope (h : v.Comes ((p.opened kind).past act)) :
    v.Comes (p.past (inScope kind pos act)) :=
  h.trans (Point.before_left _ _)

theorem Visit.Comes.within {m : Nat} (hp : p.store.Good)
    (hm : p.store.table.Parent m p.store.table.current)
    (h : v.Comes ((p.inside m).past act)) : v.Comes (p.past (within (some m) pos () act)) :=
  h.trans (Point.before_within hp hm)

theorem Visit.Comes.repeating (h : v.Comes (p.past act)) : v.Comes (p.past (repeating act)) :=
  h.trans (Point.before_of_eq prefix_rfl rfl)

theorem Visit.Comes.block (h : v.Comes ((p.opened kind).past (checkAll set items none))) :
    v.Comes (p.past (checkBlock set kind items)) := by
  rw [checkBlock_eq]
  exact h.inScope

/-- Past the first of some items. -/
theorem Sits.next {i : Item} {plans : Option (List Plan)} (hp : Sits around set p) (hi : i.Fits)
    (hplans : ∀ ps ∈ plans, Plan.AllStand p.store p.store.table.current ps) :
    let plan := plans.map (·.headD .none)
    let q := p.past (checkItem set i plan)
    Visit.Ready ⟨around, set, i, plan, p⟩ ∧ Sits around set q ∧
      ∀ ps ∈ plans.map List.tail, Plan.AllStand q.store q.store.table.current ps := by
  intro plan q
  have hplan : ∀ p' ∈ plan, p'.Stands p.store p.store.table.current := by
    intro _ hmem
    obtain ⟨ps, hps, rfl⟩ := Option.mem_map.mp hmem
    exact (Plan.allStand_headD (hplans ps hps)).1
  have hitem : Runs .any p.store (checkItem set i plan) :=
    checkItem_reports i i.placed_any hi hp.good hp.holds hplan fun _ => rfl
  have hr := hitem.past_reaches
  refine ⟨⟨hp, hi, hplan⟩, hitem.sits hp, fun ps hps => ?_⟩
  obtain ⟨ps, hmem, rfl⟩ := Option.mem_map.mp hps
  rw [hr.current]
  exact Plan.AllStand.mono hr.advances _ (Plan.allStand_headD (hplans ps hmem)).2

/-- What is found at an item is kept while the check goes on with the rest of the list. -/
theorem InItems.comes {plans : Option (List Plan)} (h : InItems around set p items plans v)
    (hp : Sits around set p) (hi : Item.AllFit items)
    (hplans : ∀ ps ∈ plans, Plan.AllStand p.store p.store.table.current ps) :
    v.Comes (p.past (checkAll set items plans)) := by
  induction h with
  | @head p i rest plans =>
    obtain ⟨hready, hsits, hrest⟩ := hp.next hi.1 hplans
    have hafter : Runs .any (p.past (checkItem set i (plans.map (·.headD .none)))).store
        (checkAll set rest (plans.map List.tail)) := by
      cases plans with
      | none => exact hsits.body hi.2
      | some ps =>
        exact checkItems_reports rest (Item.allPlaced_any rest) hi.2 hsits.good hsits.holds
          (hrest _ rfl)
    rw [checkAll_cons]
    exact ⟨hready, hafter.before⟩
  | tail _ ih =>
    obtain ⟨-, hsits, hrest⟩ := hp.next hi.1 hplans
    rw [checkAll_cons]
    exact ih hsits hi.2 hrest

/-- A function body is come to in the scope of the function, with its result as the setting. -/
theorem InFunction.comes {plan : Option FunctionPlan} (h : InFunction around set self p f plan v)
    (hp : Sits around set p) (hf : f.Fits) (hself : ∀ t ∈ self, p.store.Holds t)
    (hplan : ∀ q ∈ plan, p.store.Plans p.store.table.current q) :
    v.Comes (p.past (checkFunction set self f plan)) := by
  obtain ⟨q, rfl, m, hm, body, hbody, hin⟩ := h
  obtain ⟨⟨m', ho⟩, hsigns⟩ := hplan q rfl
  obtain rfl := mem_unique hm ho.members
  have hsits := hp.inside_function ho hsigns.result
  have hparams : Issues .any (p.inside m).store (declareParams self f.head q.signature.params) _ :=
    issues_declareParams hsits.good hself f.head.placed_any hsigns.params
  cases f with
  | mk head b =>
    obtain rfl := hbody
    rw [checkFunction, Point.past_symbol, hm, checkOptionalBody]
    exact .within hp.good ho.parent (hin.comes (hparams.sits hsits) hf (by simp))

/-- Past the first of some functions. -/
theorem Sits.nextFunction (hp : Sits around set p) (only : Bool) (hf : f.Fits)
    (hself : ∀ t ∈ self, p.store.Holds t)
    (hplans : p.store.AllPlan p.store.table.current plans) :
    let q := p.past do if !only || f.body.isSome then checkFunction set self f (plans.headD none)
    Sits around set q ∧ (∀ t ∈ self, q.store.Holds t) ∧
      q.store.AllPlan q.store.table.current plans.tail := by
  intro q
  obtain ⟨hplan, hplans⟩ := allPlan_headD hplans
  have hact : Runs .any p.store
      (do if !only || f.body.isSome then checkFunction set self f (plans.headD none)) := by
    split
    · exact checkFunction_reports f f.placed_any hf hp.good hself hplan
    · exact .pure hp.good trivial
  have hr := hact.past_reaches
  refine ⟨hact.sits hp, fun t ht => hr.holds (hself t ht), ?_⟩
  rw [hr.current]
  exact hplans.mono hr.advances

/-- Functions one after the other. -/
theorem InFunctions.comes {functions : List Function}
    (h : InFunctions around set self only p functions plans v)
    (hp : Sits around set p) (hf : Function.AllFit functions) (hself : ∀ t ∈ self, p.store.Holds t)
    (hplans : p.store.AllPlan p.store.table.current plans) :
    v.Comes (p.past (checkFunctions set self only functions plans)) := by
  induction h with
  | @head p f _ rest plans h =>
    obtain ⟨hsits, hself', hplans'⟩ := hp.nextFunction only hf.1 hself hplans
    have hafter : Runs .any _ (checkFunctions set self only rest plans.tail) :=
      checkFunctions_reports rest (Function.allPlaced_any rest) hf.2 hsits.good hself' hplans'
    have hbody : (!only || f.body.isSome) = true := by
      obtain ⟨_, _, _, _, body, hbody, _⟩ := h
      rw [Option.mem_def.mp hbody, Option.isSome_some, Bool.or_true]
    rw [checkFunctions_cons]
    rw [if_pos hbody] at hafter ⊢
    exact (h.comes hp hf.1 hself (allPlan_headD hplans).1).trans hafter.before
  | tail _ ih =>
    obtain ⟨hsits, hself', hplans'⟩ := hp.nextFunction _ hf.1 hself hplans
    rw [checkFunctions_cons]
    exact ih hsits hf.2 hself' hplans'

/-- Each arm is come to from what was known before the match. -/
theorem InArms.comes {t : Ty} {arms : List Arm} (h : InArms around set t p.snapshot q arms v)
    (hp : Sits around set p)
    (hq : q.store.Good)
    (hr : p.store.Reaches (fun _ => False) q.store) (ha : Arm.AllFit arms) (ht : p.store.Holds t) :
    v.Comes (q.past (checkArms set t p.snapshot arms)) := by
  induction h with
  | @head body v q pat test rest hin =>
    have hr' := hr.trans (restored_reaches hq hp.good hr)
    have hback := hp.restored hq hr
    have hsits := hback.opened .block (by decide)
    have hbind : Issues .any _ _ _ := issues_bindArm hsits.good pat (hr'.holds ht) ha.1.1
    have harm := hback.toReady.arm (hr'.holds ht) ha.1
    have hafter := hp.toReady.arms ht ha.2 harm.past_good (hr'.trans harm.past_reaches)
    rw [checkArms]
    have hcomes : v.Comes ((q.restored p.snapshot).past (checkArm set t (.mk pat test body))) := by
      rw [checkArm_eq]
      exact .inScope (hin.comes (hbind.sits hsits) ha.1.2 (by simp))
    exact hcomes.trans hafter.before
  | @tail _ _ q a _ ih =>
    have hr' := hr.trans (restored_reaches hq hp.good hr)
    have harm := (hp.restored hq hr).toReady.arm (hr'.holds ht) ha.1
    rw [checkArms]
    exact ih harm.past_good (hr'.trans harm.past_reaches) ha.2

end

/-! ## From a statement to those inside it -/

variable {v : Visit}

/-- An item without a plan has one made on the spot, which then stands. -/
theorem Visit.Ready.planned (h : v.Ready) : Sits v.around v.planned.1 v.ready ∧
    v.planned.2.Stands v.ready.store v.ready.store.table.current := by
  have hplanned : Reports .any v.start.store (Analysis.planned v.set v.item v.plan) _ :=
    (planned_reports h.sits.good v.set v.item.placed_any h.stands).toReportsUnder
  have hsits := hplanned.sits h.sits
  have hout := hplanned.past_result
  refine ⟨⟨⟨hsits.good, hsits.holds.of_result hout.1⟩, hsits.scopes, ?_⟩, hout.2⟩
  rw [show v.planned.1.result = v.set.result from hout.1]
  exact hsits.result

theorem checkImplemented_reports {s : Store} (h : s.Good)
    (d : ImplHead) (functions : List Function) :
    Runs .any s (checkImplemented d functions) := by
  unfold checkImplemented
  split
  · exact checkTrait_reports h _ (Function.allPlaced_any functions) trivial
  · exact .pure h trivial

/-- Behind the trait of an implementation its functions can be checked, in a scope of their own. -/
theorem Sits.behindTrait {around : List Enclosure} {set : Setting} {p : Point} {scope : Nat}
    {target : Ty} {plans : List (Option FunctionPlan)} (hp : Sits around set p)
    (hstands : Plan.Stands p.store p.store.table.current (.implementation scope target plans))
    (d : ImplHead) (functions : List Function) :
    let q := (p.inside scope).past (checkImplemented d functions)
    Sits around set q ∧ (∀ t ∈ some target, q.store.Holds t) ∧
      q.store.AllPlan q.store.table.current plans := by
  intro q
  obtain ⟨⟨id, ho⟩, htarget, hplans⟩ := hstands
  have hinside := hp.inside ho (by decide)
  have htrait := checkImplemented_reports hinside.good d functions
  have hr := htrait.past_reaches
  refine ⟨htrait.sits hinside, fun t ht => some.inj ht ▸ hr.holds htarget, ?_⟩
  rw [hr.current]
  exact (hplans.mono (descends_inside hp.good ho.parent).advances).mono hr.advances

theorem joinArms_before (p : Point) (ends : List Snapshot) : p.Before (p.past (joinArms ends)) := by
  cases ends with
  | nil => exact Point.before_of_eq prefix_rfl rfl
  | cons first others =>
    have hjoins : ∀ q : Point, q.Before (q.past (others.forM fun other =>
        (liftM (onLedger (·.join other)) : AnalysisM Unit))) := by
      induction others with
      | nil => exact fun q => Point.before_of_eq prefix_rfl rfl
      | cons other rest ih => exact fun q => (q.before_joined other).trans (ih _)
    exact (p.before_restored first).trans (hjoins _)

/-- **One step inward**, by the kind of the statement: the inner one is come to ready to be checked,
and what it leaves behind is kept to the end of the outer one. -/
theorem Visit.Inside.comes {w : Visit} (hw : v.Inside w) (h : v.Ready) : w.Comes v.ended := by
  obtain ⟨around, set, item, plan, p⟩ := v
  have hp : Sits around set p := h.sits
  have hi : item.Fits := h.fits
  obtain ⟨hq, hstands⟩ := h.planned
  have hplanned := past_planned ⟨around, set, item, plan, p⟩
  unfold Inside at hw
  unfold ended
  generalize Visit.planned _ = out at hw hq hstands hplanned
  dsimp only at hw hi ⊢
  split at hw
  -- functions, then classes, traits and implementations with their functions, and modules
  · rw [checkItem, hplanned]
    exact hw.comes hq hi (by simp) fun q hq => some.inj hq ▸ hstands
  · rw [checkItem, hplanned]
    obtain ⟨m, hm, hw⟩ := hw
    obtain ⟨kind, m', hk, ho, hplans⟩ := hstands
    obtain rfl := mem_unique hm ho.members
    have hd := descends_inside hq.good ho.parent
    dsimp only
    rw [Point.past_symbol, hm]
    exact .within hq.good ho.parent
      (hw.comes (hq.inside ho hk) hi (fun t ht => holds_symbolType hq.good ht)
      (hplans.mono hd.advances))
  · rw [checkItem, hplanned]
    obtain ⟨m, hm, hw⟩ := hw
    obtain ⟨kind, m', hk, ho, hplans⟩ := hstands
    obtain rfl := mem_unique hm ho.members
    have hd := descends_inside hq.good ho.parent
    dsimp only
    rw [Point.past_get, hm]
    exact .within hq.good ho.parent
      (hw.comes (hq.inside ho hk) hi (fun t ht => holds_traitSelf hq.good ht)
      (hplans.mono hd.advances))
  · next d functions _ _ _ _ =>
    rw [checkItem, hplanned]
    -- the trait is looked at first, in the scope of the implementation
    obtain ⟨hsits, hself, hplans⟩ := hq.behindTrait hstands d functions
    have hcomes := hw.comes hsits hi hself hplans
    obtain ⟨⟨id, ho⟩, -⟩ := hstands
    refine .within hq.good ho.parent ?_
    unfold checkImplemented at hcomes
    cases htrait : d.trait <;> rw [htrait] at hcomes <;> exact hcomes
  · rw [checkItem, hplanned]
    obtain ⟨m, hm, hw⟩ := hw
    obtain ⟨m', ho, hplans⟩ := hstands
    obtain rfl := mem_unique hm ho.members
    have hd := descends_inside hq.good ho.parent
    dsimp only
    rw [Point.past_symbol, hm]
    refine .within hq.good ho.parent (hw.comes (hq.inside ho (by decide)) hi fun ps hps => ?_)
    obtain rfl := some.inj hps
    exact Plan.AllStand.mono hd.advances _ hplans
  -- statements: the condition or scrutinee is evaluated before anything inside is come to
  · have hcond := issues_condition hp.good hi.1 "if condition"
    have htested := hcond.sits hp
    have hthen := htested.toReady.block .block hi.2.1
    have hback := htested.restored hthen.past_good hthen.past_reaches
    rw [checkItem]
    rcases hw with hw | ⟨body, rfl, hw⟩
    · have hcomes := hw.comes (htested.opened .block (by decide)) hi.2.1 (by simp)
      exact hcomes.block.trans ((Point.before_restored _ _).trans
        ((hback.toReady.elseBody hi.2.2).before.trans (Point.before_joined _ _)))
    · rw [checkElse]
      exact (hw.comes (hback.opened .block (by decide)) hi.2.2 (by simp)).block.trans
        (Point.before_joined _ _)
  · have hcond := issues_condition hp.good hi.1 "while condition"
    rw [checkItem]
    exact (hw.comes ((hcond.sits hp).opened .loop (by decide)) hi.2 (by simp)).block.trans
      (Point.before_joined _ _)
  · next var iter body =>
    have hiter := issues_evaluateIter hp.good hi.1
    have hinside := (hiter.sits hp).opened .loop (by decide)
    have hvar : Issues .any _ (declareLoopVar var _) _ :=
      issues_loopVar hinside.good trivial hiter.past_result
    rw [forEach_eq, Point.past_bind]
    refine .repeating (.inScope ?_)
    rw [Point.past_bind]
    exact hw.comes (hvar.sits hinside) hi.2 (by simp)
  · rw [checkItem]
    exact (hw.comes (hp.opened .loop (by decide)) hi (by simp)).block
  · have hscrutinee := issues_evaluateScrutinee hp.good hi.1
    have hevaluated := hscrutinee.sits hp
    rw [matchOn_eq, Point.past_bind, Point.past_ledger, Point.past_bind]
    exact (hw.comes hevaluated hevaluated.good (.refl _) hi.2 hscrutinee.past_result).trans
      (joinArms_before _ _)
  · rw [checkItem]
    exact (hw.comes (hp.opened .block (by decide)) hi (by simp)).block
  · cases hw

/-- Whatever the last pass comes to, it comes to with the open scopes that the syntax asks for. -/
theorem Visited.comes (hv : Visited items v) (hi : Item.AllFit items) :
    v.Comes (Point.past ⟨[], (lastRound items).2⟩ (checkItems {} items (declared items).1.1)) := by
  obtain ⟨r, hr, hrun⟩ := hv
  have hat := Item.allPlaced_any items
  have hbetween := between_lastRound hat
  have hempty : Sits [] {} ⟨[], {}⟩ := ⟨⟨good_empty, fun _ ht => (by cases ht)⟩, rfl, by simp⟩
  have hroot := hr.comes (hempty.reaches hbetween.good hbetween.reaches) hi
    fun ps hps => some.inj hps ▸ plans_stand hat
  induction hrun with
  | refl => exact hroot
  | tail _ hstep ih => exact (hstep.comes ih.toReady).trans ih.before

/-- Wherever the check comes to, the invariant holds. -/
theorem Visited.ready (hv : Visited items v) (hi : Item.AllFit items) : v.Ready :=
  (hv.comes hi).toReady

/-! ## What is found at a statement -/

namespace Visit

/-- What the check of a statement finds. -/
def found (v : Visit) : List Diagnostic := v.ended.log.drop v.start.log.length

theorem found_eq {ds : List Diagnostic} (h : v.ended.log = v.start.log ++ ds) : v.found = ds := by
  rw [found, h, drop_left]

/-- A statement that does not belong where it stands. -/
def Rejected (v : Visit) : Prop := ∃ d ∈ v.found, d.code = .invalidScope

end Visit

/-- What is found at a statement is found by the analysis, in one piece. -/
theorem Visited.found_infix (hv : Visited items v) (hi : Item.AllFit items) :
    v.found <:+: (everyPass items).2 := by
  have hlog : (everyPass items).2 = (collected items).1.2 ++ (firstRound items).1.2 ++
    (declared items).1.2 ++
    (lastRound items).1.2 ++
    (Point.past ⟨[], (lastRound items).2⟩ (checkItems {} items (declared items).1.1)).log :=
    rfl
  rw [hlog]
  exact (drop_suffix _ _).isInfix.trans
    ((hv.comes hi).before.log.isInfix.trans (suffix_append _ _).isInfix)

/-- Errors at a statement are errors of the analysis, as long as all are kept. -/
theorem Visited.mem_errors (hv : Visited items v) (hi : Item.AllFit items) {c : Config}
    (hc : c.maxErrors ≤ 0)
    {d : Diagnostic} (hd : d ∈ v.found) (herror : d.isWarning = false) :
    d ∈ (analyze c items).errors := by
  have hmem : d ∈ Diagnostic.errorsOf (analyze c items).errors := by
    rw [errorsOf_analyze hi c, Config.kept, if_neg (by omega), Diagnostic.errorsOf,
      mem_filter, herror]
    exact ⟨(hv.found_infix hi).subset hd, rfl⟩
  exact (mem_filter.mp hmem).1

end Analysis

end UnitCheck
