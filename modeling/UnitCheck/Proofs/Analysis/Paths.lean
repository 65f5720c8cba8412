import UnitCheck.Proofs.Analysis.Check
import UnitCheck.Proofs.Analysis.Views

/-!
# Paths through checked bodies

The check of a body goes through its statements once, and each of them issues events. `bodyCourse`
puts these events together as the statements stand in the body, so that `Course.Path` gives the
events on each path through it: a statement's events are those that were issued when it was checked.
A declaration inside a body is checked where it stands but does not run there.

The check knows of the variables in view what a walk through the course gives
(`bodyCourse_follows`), and so a path accesses variables only as their status allows, if the course
is steady (`paths_access_variables_as_allowed`). Without that it may not: a loop whose body moves a
variable from outside is accepted, though its second round finds the variable moved
(`loop_moves_twice`). -/

namespace UnitCheck

open Checking

namespace Analysis

/-! ## Points of an analysis -/

/-- Where an analysis stands: what it has logged, and its store. -/
structure Point where
  log : List Diagnostic
  store : Store

namespace Point

variable {α β : Type}

/-- Past a computation. -/
def past (p : Point) (act : AnalysisM α) : Point where
  log := ((act.run p.log).run p.store).1.2
  store := ((act.run p.log).run p.store).2

def result (p : Point) (act : AnalysisM α) : α := ((act.run p.log).run p.store).1.1

theorem past_bind (p : Point) (x : AnalysisM α) (f : α → AnalysisM β) :
    p.past (x >>= f) = (p.past x).past (f (p.result x)) :=
  rfl

theorem past_ledger (p : Point) (f : Ledger → AnalysisM α) :
    p.past (ledger >>= f) = p.past (f p.store.ledger) :=
  rfl

theorem past_get (p : Point) (f : Store → AnalysisM α) :
    p.past (getThe Store >>= f) = p.past (f p.store) :=
  rfl

theorem past_symbol (p : Point) (id : Nat) (f : Symbol → AnalysisM α) :
    p.past (liftM (symbol id) >>= f) = p.past (f (p.store.table.symbol id)) :=
  rfl

/-- In a scope that has just been opened. -/
def opened (p : Point) (kind : ScopeKind) : Point := { p with store := p.store.opened kind }

/-- Back at a snapshot. -/
def restored (p : Point) (before : Snapshot) : Point :=
  p.past (liftM (onLedger (·.restore before)) : AnalysisM Unit)

/-- With a snapshot joined. -/
def joined (p : Point) (other : Snapshot) : Point :=
  p.past (liftM (onLedger (·.join other)) : AnalysisM Unit)

/-- What is known of variables. -/
def snapshot (p : Point) : Snapshot := p.store.ledger.snapshot

/-- The events that a computation issues one after the other. -/
def straight (p : Point) (act : AnalysisM α) : Course :=
  .events (p.store.eventsTo (p.past act).store)

/-- A declaration inside a body: of its events only those count that declare variables. -/
def declaring (p : Point) (act : AnalysisM α) : Course :=
  let s := (p.past act).store
  .declaration
    ((p.store.eventsTo s).filter fun
      | .declared i _ => s.ledger.isTracked i
      | .accessed .. => false)
    (s.table.SeesSymbol s.table.current) s.ledger.status

end Point

section

variable {α : Type} {P : Int → Prop} {p : Point} {x : AnalysisM α} {Q : Store → α → Prop}

theorem EndsUnder.past_good (hx : EndsUnder .any P p.store x Q) :
    (p.past x).store.Good := hx.good p.log

theorem EndsUnder.past_reaches (hx : EndsUnder .any P p.store x Q) :
    p.store.Reaches P (p.past x).store :=
  hx.reaches p.log

theorem EndsUnder.past_result (hx : EndsUnder .any P p.store x Q) :
    Q (p.past x).store (p.result x) :=
  hx.result p.log

/-- Where the check of statements can go on. -/
structure Point.Ready (p : Point) (set : Setting) : Prop where
  good : p.store.Good
  holds : set.Holds p.store

theorem EndsUnder.ready {set : Setting} (hx : EndsUnder .any P p.store x Q) (h : p.Ready set) :
    (p.past x).Ready set :=
  ⟨hx.past_good, h.holds.mono hx.past_reaches⟩

end

/-! ## What comes before a body -/

/-- What a loop goes through. -/
def evaluateIter (iter : Expr) : AnalysisM Ty := do reported (← loopElement iter)

/-- What a match looks at. -/
def evaluateScrutinee (scrutinee : Expr) : AnalysisM Ty := do
  let t ← evaluateRead scrutinee
  report t.faults
  return if t.faults.isEmpty then t.type else .invalid

/-- The pattern of an arm, and its guard. -/
def bindArm (pat : Pattern) (t : Ty) (guard : Option Expr) : AnalysisM Unit := do
  reporting (pattern pat t)
  match guard with
  | some e => reporting (condition e "match guard")
  | none => pure ()

section

variable {s : Store}

theorem issues_evaluateIter (h : s.Good) {iter : Expr} (hi : iter.Fits) :
    Issues .any s (evaluateIter iter) fun s' u => s'.Holds u :=
  (issues_lift (loopElement_ends h hi iter.placed_any)).bind
    fun _ _ h' _ ht => (issues_reported h' ht).imp fun _ _ _ _ hu => hu.2.2

theorem issues_evaluateScrutinee (h : s.Good) {scrutinee : Expr} (hs : scrutinee.Fits) :
    Issues .any s (evaluateScrutinee scrutinee) fun s' u => s'.Holds u := by
  refine (issues_lift (evaluateRead_ends h hs scrutinee.placed_any)).bind fun t s₁ h₁ _ ht => ?_
  refine (issues_report h₁ ht.clean).bind fun _ s₂ h₂ _ hs₂ => .pure h₂ ?_
  subst hs₂
  split
  · exact ht.holds
  · exact h₂.registry.basic .invalid

theorem issues_bindArm (h : s.Good) (pat : Pattern) {t : Ty} (ht : s.Holds t)
    {guard : Option Expr} (hg : ∀ e ∈ guard, e.Fits) :
    Issues .any s (bindArm pat t guard) fun _ _ => True := by
  refine (issues_reporting (pattern_ends pat pat.placed_any h ht)).bind fun _ s₁ h₁ _ _ => ?_
  cases guard with
  | none => exact .pure h₁ trivial
  | some e => exact issues_reporting (condition_ends h₁ (hg e rfl) e.placed_any _)

theorem issues_condition (h : s.Good) {cond : Expr} (hc : cond.Fits) (what : String) :
    Issues .any s (reporting (condition cond what)) fun _ _ => True :=
  issues_reporting (condition_ends h hc cond.placed_any what)

end

/-! ## Bodies -/

variable {kind : ScopeKind} {act : AnalysisM Unit}

namespace Point.Ready

variable {set : Setting} {p q : Point} (h : p.Ready set)
include h

theorem opened (kind : ScopeKind) : (p.opened kind).Ready set :=
  have hd := Store.descends_opened h.good kind
  ⟨hd.good, h.holds.descends hd⟩

variable {items : List Item}

theorem body (hi : Item.AllFit items) : Runs .any p.store (checkBody set items) :=
  checkBody_reports items (Item.allPlaced_any items) hi h.good h.holds

theorem block (kind : ScopeKind) (hi : Item.AllFit items) :
    RunsUnder .any (fun _ => False) p.store (checkBlock set kind items) :=
  checkBlock_reports items (Item.allPlaced_any items) kind hi h.good h.holds

theorem elseBody {body : Option (List Item)} (hi : Item.BodyFits body) :
    RunsUnder .any (fun _ => False) p.store (checkElse set body) :=
  checkElse_reports body (Item.bodyPlaced_any body) hi h.good h.holds

/-- What comes before a body is in the same scope. -/
theorem prepared {Q : Store → Unit → Prop}
    (hact : Issues .any (p.opened kind).store act Q) (hi : Item.AllFit items) :
    Runs .any (p.opened kind).store (do
      act
      checkBody set items) :=
  Reports.bind hact.toReportsUnder fun _ _ h' hr _ =>
    checkBody_reports items (Item.allPlaced_any items) hi h' ((h.opened kind).holds.mono hr)

variable {t : Ty} (ht : p.store.Holds t)
include ht

theorem arm {a : Arm} (ha : a.Fits) : RunsUnder .any (fun _ => False) p.store (checkArm set t a) :=
  checkArm_reports a a.placed_any ha h.good h.holds ht

theorem arms {arms : List Arm} (ha : Arm.AllFit arms) (hq : q.store.Good)
    (hr : p.store.Reaches (fun _ => False) q.store) :
    EndsUnder .any (fun _ => False) q.store (checkArms set t p.snapshot arms)
      (EndsOf p.store q.store) :=
  checkArms_reports arms (Arm.allPlaced_any arms) ha h.good h.holds ht hq hr

end Point.Ready

/-! ## Courses of statements -/

mutual

/-- What an item of a body does to variables, if it is checked from the point `p` on. -/
def itemCourse (set : Setting) (p : Point) : Item → Course
  | .bad .. => .events []
  | .letVar d => p.straight (checkItem set (.letVar d) none)
  | .constant d => p.straight (checkItem set (.constant d) none)
  | .function f => p.declaring (checkItem set (.function f) none)
  | .structType d => p.declaring (checkItem set (.structType d) none)
  | .classType d functions => p.declaring (checkItem set (.classType d functions) none)
  | .enumType d => p.declaring (checkItem set (.enumType d) none)
  | .traitType d functions => p.declaring (checkItem set (.traitType d functions) none)
  | .implementation d functions => p.declaring (checkItem set (.implementation d functions) none)
  | .moduleBlock d body => p.declaring (checkItem set (.moduleBlock d body) none)
  | .use d => p.declaring (checkItem set (.use d) none)
  | .expression e => p.straight (checkItem set (.expression e) none)
  | .returnWith pos value =>
    .seq (p.straight (checkItem set (.returnWith pos value) none)) (.leave .returned)
  | .ifElse _ cond thenBody elseBody =>
    let tested := p.past (reporting (condition cond "if condition"))
    let ended := tested.past (checkBlock set .block thenBody)
    .seq (p.straight (reporting (condition cond "if condition")))
      (.either (bodyCourse set (tested.opened .block) thenBody)
        (elseCourse set (ended.restored tested.snapshot) elseBody))
  | .whileLoop _ cond body =>
    let tested := p.past (reporting (condition cond "while condition"))
    .rounds true (p.store.eventsTo tested.store) (bodyCourse set (tested.opened .loop) body)
  | .forEach _ var iter body =>
    let inside := (p.past (evaluateIter iter)).opened .loop
    let declare := declareLoopVar var (p.result (evaluateIter iter))
    .seq (p.straight (evaluateIter iter)) (.rounds true []
      (.seq (inside.straight declare) (bodyCourse set (inside.past declare) body)))
  | .loop _ body => .rounds false [] (bodyCourse set (p.opened .loop) body)
  | .breakLoop _ => .leave .broke
  | .continueLoop _ => .leave .continued
  | .matchOn _ scrutinee arms =>
    let evaluated := p.past (evaluateScrutinee scrutinee)
    .seq (p.straight (evaluateScrutinee scrutinee))
      (armsCourse set (p.result (evaluateScrutinee scrutinee)) evaluated.snapshot evaluated arms)
  | .block _ body => .block (bodyCourse set (p.opened .block) body)

def bodyCourse (set : Setting) (p : Point) : List Item → Course
  | [] => .events []
  | i :: rest => .seq (itemCourse set p i) (bodyCourse set (p.past (checkItem set i none)) rest)

def elseCourse (set : Setting) (p : Point) : Option (List Item) → Course
  | none => .events []
  | some body => bodyCourse set (p.opened .block) body

/-- The arms of a match, of which a path takes one. -/
def armsCourse (set : Setting) (t : Ty) (before : Snapshot) (p : Point) : List Arm → Course
  | [] => .events []
  | [a] => .block (armCourse set t (p.restored before) a)
  | a :: b :: rest =>
    .either (armCourse set t (p.restored before) a)
      (armsCourse set t before ((p.restored before).past (checkArm set t a)) (b :: rest))

def armCourse (set : Setting) (t : Ty) (p : Point) : Arm → Course
  | .mk pat guard body =>
    let inside := p.opened .block
    .seq (inside.straight (bindArm pat t guard))
      (bodyCourse set (inside.past (bindArm pat t guard)) body)

end

/-- What the body of a function does to variables, its parameters being declared first. -/
def functionCourse (set : Setting) (self : Option Ty) (f : Function) (signature : Signature)
    (p : Point) : Course :=
  let declare := declareParams self f.head signature.params
  .seq (p.straight declare) (match f.body with
    | none => .events []
    | some body => bodyCourse { set with result := some signature.result } (p.past declare) body)

/-! ## Keeping to a course -/

/-- What is granted from the view `σ` on, and agreed on with the store in the end. -/
structure Follows (σ : View) (c : Course) (s : Store) : Prop where
  granted : c.Granted σ
  agrees : s.Agrees (c.after σ)

/-- The same of a scope that has been left. -/
structure FollowsInside (σ : View) (c : Course) (s : Store) : Prop where
  granted : c.Granted σ
  agrees : s.Agrees (View.within σ (c.after σ))

section

variable {α : Type} {p : Point} {σ : View} {c : Course}

theorem straight_follows {act : AnalysisM α} {Q : Store → α → Prop} (h : p.store.Good)
    (ha : p.store.Agrees σ) (hact : Issues .any p.store act Q) :
    Follows σ (p.straight act) (p.past act).store := by
  obtain ⟨hg, ha'⟩ := ha.evaluates h (hact.events p.log)
  exact ⟨hg, ha'⟩

/-- A nested declaration is checked on the spot; the course has it as a whole. -/
theorem declaring_follows {act : AnalysisM α} {P : Int → Prop} (ha : p.store.Agrees σ)
    (hr : p.store.Reaches P (p.past act).store) (hs : (p.declaring act).Steady σ) :
    Follows σ (p.declaring act) (p.past act).store := by
  obtain ⟨hdeclares, hleft⟩ := hs
  refine ⟨trivial, fun i hi => (hleft i hi).symm, fun i hi => ?_⟩
  refine hdeclares.after_eq_none ?_ fun initialized hmem => ?_
  · refine ha.tracked i ?_
    rw [Ledger.status_eq_none_iff] at hi ⊢
    rw [← Bool.not_eq_true] at hi ⊢
    exact fun ht => hi (hr.tracked ht)
  · have htracked := (List.mem_filter.mp hmem).2
    rw [Ledger.status_eq_none_iff] at hi
    exact Bool.false_ne_true (hi.symm.trans htracked)

theorem inScope_past (h : p.store.Good) (pos : Position)
    (hact : Runs .any (p.store.opened kind) act) :
    (p.past (inScope kind pos act)).store =
      ((p.opened kind).past act).store.left p.store.table.current := by
  have hparent := (Store.descends_opened h kind).parent_after (hact.reaches p.log)
  show (((inScope kind pos act).run p.log).run p.store).2 = _
  rw [inScope_run hparent pos]
  rfl

/-- A scope is entered, gone through and left. -/
theorem inScope_follows (hk : kind.holdsMembers = false) (h : p.store.Good) (ha : p.store.Agrees σ)
    (pos : Position) (hact : Runs .any (p.store.opened kind) act)
    (hc : Follows σ c ((p.opened kind).past act).store) :
    FollowsInside σ c (p.past (inScope kind pos act)).store := by
  refine ⟨hc.granted, ?_⟩
  rw [inScope_past h pos hact]
  exact ha.left hk h (hact.good p.log) (hact.reaches p.log) hc.agrees

theorem checkBlock_eq (set : Setting) (kind : ScopeKind) (items : List Item) :
    checkBlock set kind items = inScope kind (firstPos items) (checkBody set items) := by
  cases items with
  | nil =>
    rw [checkBlock, checkBody]
    rfl
  | cons i rest =>
    rw [checkBlock, checkBody]
    rfl

theorem Follows.seq {a b : Course} {s s' : Store} (ha : Follows σ a s)
    (hb : s.Agrees (a.after σ) → Follows (a.after σ) b s') : Follows σ (.seq a b) s' :=
  ⟨⟨ha.granted, (hb ha.agrees).granted⟩, (hb ha.agrees).agrees⟩

/-! ## Branches -/

section

variable {P : Int → Prop} {q : Point} {τ : View}

theorem restored_good (h : q.store.Good) (hp : p.store.Good)
    (hr : p.store.Reaches (fun _ => False) q.store) : (q.restored p.snapshot).store.Good :=
  (restore_endsUnder (A := .any) (P := fun _ => False) h hp hr.records).good q.log

theorem restored_reaches (h : q.store.Good) (hp : p.store.Good)
    (hr : p.store.Reaches (fun _ => False) q.store) :
    q.store.Reaches (fun _ => False) (q.restored p.snapshot).store :=
  (restore_endsUnder (A := .any) h hp hr.records).reaches q.log

theorem Point.Ready.restored {set : Setting} (h : p.Ready set) (hq : q.store.Good)
    (hr : p.store.Reaches (fun _ => False) q.store) : (q.restored p.snapshot).Ready set :=
  ⟨restored_good hq h.good hr, h.holds.mono (hr.trans (restored_reaches hq h.good hr))⟩

theorem joined_good (h : p.store.Good) (other : Snapshot) : (p.joined other).store.Good :=
  (join_endsUnder (A := .any) (P := fun _ => False) h other).good p.log

theorem joined_reaches (h : p.store.Good) (other : Snapshot) :
    p.store.Reaches (fun _ => False) (p.joined other).store :=
  (join_endsUnder (A := .any) h other).reaches p.log

theorem restored_agrees (h : p.store.Good) (ha : p.store.Agrees σ)
    (hr : p.store.Reaches P q.store) (hq : q.store.Agrees τ) (hτ : ∀ i, σ i = none → τ i = none) :
    (q.restored p.snapshot).store.Agrees σ :=
  Store.Agrees.restore h ha hr hq hτ

theorem joined_agrees (h : p.store.Good) (ha : p.store.Agrees σ) (hr : p.store.Reaches P q.store)
    (hq : q.store.Agrees τ) (hτ : ∀ i, σ i = none → τ i = none) :
    (q.joined p.snapshot).store.Agrees (View.join τ σ) :=
  Store.Agrees.join h ha hr hq hτ

end

/-- The snapshot of a store in which an arm has ended, with what was in view there: the variables
that were in view before the arm. -/
structure ArmEnd (σ : View) (s : Store) (e : Snapshot) (τ : View) : Prop where
  taken : ∃ ended : Point, ended.store.Good ∧ e = ended.snapshot ∧ ended.store.Agrees τ ∧
    ended.store.Reaches (fun _ => False) s
  same : ∀ i, τ i = none ↔ σ i = none

/-- The ends of arms, with what is known after any of them. -/
inductive ArmEnds (σ : View) (s : Store) : List Snapshot → View → Prop where
  | one {e : Snapshot} {τ : View} (last : ArmEnd σ s e τ) : ArmEnds σ s [e] τ
  | more {e : Snapshot} {rest : List Snapshot} {τ υ : View} (first : ArmEnd σ s e τ)
      (others : ArmEnds σ s rest υ) : ArmEnds σ s (e :: rest) (View.join τ υ)

section

variable {s s' : Store} {e : Snapshot} {ends : List Snapshot} {τ υ : View}

theorem ArmEnd.later (h : ArmEnd σ s e τ) (hr : s.Reaches (fun _ => False) s') :
    ArmEnd σ s' e τ := by
  obtain ⟨⟨ended, hgood, heq, hagrees, hreaches⟩, hsame⟩ := h
  exact ⟨⟨ended, hgood, heq, hagrees, hreaches.trans hr⟩, hsame⟩

theorem ArmEnds.later (h : ArmEnds σ s ends υ) (hr : s.Reaches (fun _ => False) s') :
    ArmEnds σ s' ends υ := by
  induction h with
  | one last => exact .one (last.later hr)
  | more first _ ih => exact .more (first.later hr) ih

theorem ArmEnds.same (h : ArmEnds σ s ends υ) (i : Nat) : υ i = none ↔ σ i = none := by
  induction h with
  | one last => exact last.same i
  | more first _ ih => rw [View.join_eq_none_iff, first.same, ih, or_self]

end

/-- The end of an arm that has just been gone through. -/
theorem FollowsInside.armEnd (hf : FollowsInside σ c p.store) (h : p.store.Good) (hs : c.Steady σ) :
    ArmEnd σ p.store p.snapshot (View.within σ (c.after σ)) where
  taken := ⟨p, h, rfl, hf.agrees, .refl _⟩
  same _ := ⟨(c.grows hf.granted hs).within.eq_none, View.within_eq_none _⟩

/-- Joining the ends of arms joins what is known at each. -/
theorem ArmEnds.joined {ends : List Snapshot} {τ υ : View} (he : ArmEnds σ p.store ends υ)
    (h : p.store.Good) (ha : p.store.Agrees τ) (hτ : ∀ i, τ i = none ↔ σ i = none) :
    (p.past (ends.forM fun other => onLedger (·.join other) : AnalysisM Unit)).store.Agrees
      (View.join τ υ) := by
  induction ends generalizing p τ υ with
  | nil => cases he
  | cons e rest ih =>
    have hstep : ∀ {τ' : View}, ArmEnd σ p.store e τ' →
      (p.joined e).store.Agrees (View.join τ τ') := by
      rintro τ' ⟨⟨ended, hgood, rfl, hagrees, hreaches⟩, hsame⟩
      exact joined_agrees hgood hagrees hreaches ha fun i hi => (hτ i).mpr ((hsame i).mp hi)
    cases he with
    | one last => exact hstep last
    | @more _ _ τ' υ first others =>
      have hnext := ih (p := p.joined e) (others.later (joined_reaches h e)) (joined_good h e)
        (hstep first) fun i => by rw [View.join_eq_none_iff, hτ, first.same, or_self]
      rw [View.join_assoc] at hnext
      exact hnext

end

/-! ## Statements with bodies -/

section

variable {p : Point} {σ : View} {set : Setting} {c : Course}

theorem block_follows (hk : kind.holdsMembers = false) (h : p.Ready set) (ha : p.store.Agrees σ)
    {items : List Item} (hi : Item.AllFit items) (hc : let q := p.opened kind
      q.Ready set → q.store.Agrees σ → Follows σ c (q.past (checkBody set items)).store) :
    FollowsInside σ c (p.past (checkBlock set kind items)).store := by
  rw [checkBlock_eq]
  have h' := h.opened kind
  exact inScope_follows hk h.good ha _ (h'.body hi) (hc h' (ha.opened h.good kind))

/-- The course of a choice, from those of its branches. -/
theorem branches_follow (h : p.Ready set) (ha : p.store.Agrees σ) {first second : AnalysisM Unit}
    {a b : Course} (hs : a.Steady σ)
    (hfirst : RunsUnder .any (fun _ => False) p.store first)
    (hfollow : FollowsInside σ a (p.past first).store)
    (hsecond : let q := (p.past first).restored p.snapshot
      q.Ready set → RunsUnder .any (fun _ => False) q.store second)
    (hfollow' : let q := (p.past first).restored p.snapshot
      q.Ready set → q.store.Agrees σ → FollowsInside σ b (q.past second).store) :
    Follows σ (.either a b) (p.past (branching first second)).store := by
  have hback := restored_reaches hfirst.past_good h.good hfirst.past_reaches
  have hagrees :=
    restored_agrees h.good ha hfirst.past_reaches hfollow.agrees fun i hi =>
      View.within_eq_none _ hi
  have h' := h.restored hfirst.past_good hfirst.past_reaches
  have hfollow' := hfollow' h' hagrees
  refine ⟨⟨hfollow.granted, hfollow'.granted⟩, ?_⟩
  have hgrows := (a.grows hfollow.granted hs).within
  have hjoined := joined_agrees hfirst.past_good hfollow.agrees
    (hback.trans (hsecond h').past_reaches) hfollow'.agrees
    fun i hi => View.within_eq_none _ (hgrows.eq_none hi)
  rw [View.join_comm] at hjoined
  exact hjoined

theorem rounds_follow {head : List VarEvent} (hg : View.Grants σ head) (h : p.store.Good)
    (ha : p.store.Agrees (View.after σ head)) {round : AnalysisM Unit}
    (hround : RunsUnder .any (fun _ => False) p.store round)
    (hfollow : FollowsInside (View.after σ head) c (p.past round).store) :
    Follows σ (.rounds true head c) (p.past (repeating round)).store := by
  refine ⟨⟨hg, hfollow.granted⟩, ?_⟩
  rw [Course.after, if_pos rfl]
  exact joined_agrees h ha hround.past_reaches hfollow.agrees fun i hi => View.within_eq_none _ hi

theorem insideLoop_past (word : String) (pos : Position) :
    (p.past (reporting (insideLoop word pos))).store = p.store := by
  have hsame : ((insideLoop word pos).run p.store).2 = p.store := by
    unfold insideLoop
    simp only [StateT.run_bind, StateT.run_get, pure_bind]
    split <;> rfl
  exact hsame

/-- What the check of a match does once its arms have been gone through. -/
def joinArms : List Snapshot → AnalysisM Unit
  | [] => pure ()
  | first :: others => do
    onLedger (·.restore first)
    others.forM fun other => onLedger (·.join other)

/-- The course of a `for`: each round declares the variable and goes through the body. -/
theorem forEach_follows (h : p.Ready set) (ha : p.store.Agrees σ) (pos : Position) (var : Label)
    {elem : Ty} (helem : p.store.Holds elem) {body : List Item} (hi : Item.AllFit body)
    (hfollow : let q := (p.opened .loop).past (declareLoopVar var elem)
      let τ := ((p.opened .loop).straight (declareLoopVar var elem)).after σ
      q.Ready set → q.store.Agrees τ → Follows τ c (q.past (checkBody set body)).store) :
    Follows σ (.rounds true [] (.seq ((p.opened .loop).straight (declareLoopVar var elem)) c))
      (p.past (repeating (inScope .loop pos do
        declareLoopVar var elem
        checkBody set body))).store := by
  have h' := h.opened .loop
  have hvar : Issues .any _ (declareLoopVar var elem) _ := issues_loopVar h'.good trivial helem
  have hround := h.prepared hvar hi
  have hg : View.Grants σ [] := trivial
  refine rounds_follow hg h.good ha (inScope_reports h.good .loop pos hround) ?_
  refine inScope_follows rfl h.good ha pos hround ?_
  exact (straight_follows h'.good (ha.opened h.good .loop) hvar).seq fun ha' =>
    hfollow (hvar.ready h') ha'

variable (plan : Option Plan)

theorem forEach_eq (set : Setting) (pos : Position) (var : Label) (iter : Expr) (body : List Item) :
    checkItem set (.forEach pos var iter body) plan = (do
      let elem ← evaluateIter iter
      repeating (inScope .loop pos do
        declareLoopVar var elem
        checkBody set body)) := by
  rw [checkItem]
  simp only [evaluateIter, declareLoopVar, bind_assoc]

theorem matchOn_eq (set : Setting) (pos : Position) (scrutinee : Expr) (arms : List Arm) :
    checkItem set (.matchOn pos scrutinee arms) plan = (do
      let t ← evaluateScrutinee scrutinee
      let before := (← ledger).snapshot
      let ends ← checkArms set t before arms
      joinArms ends) := by
  rw [checkItem]
  simp only [evaluateScrutinee, bind_assoc, pure_bind]
  rfl

theorem checkArm_eq (set : Setting) (t : Ty) (pat : Pattern) (guard : Option Expr)
    (body : List Item) :
    checkArm set t (.mk pat guard body) = inScope .block pat.pos (do
      bindArm pat t guard
      checkBody set body) := by
  rw [checkArm]
  cases guard <;> rfl

/-- Arms that keep to their course, and the snapshots of their ends. -/
structure ArmsFollow (σ : View) (c : Course) (s : Store) (ends : List Snapshot) : Prop where
  granted : c.Granted σ
  ends : ArmEnds σ s ends (c.after σ)
  agrees : ∃ τ, s.Agrees τ ∧ ∀ i, σ i = none → τ i = none

/-- The course of a match, once its arms have been merged. -/
theorem arms_follow {ends : List Snapshot} (h : p.store.Good)
    (hc : ArmsFollow σ c p.store ends) : Follows σ c (p.past (joinArms ends)).store := by
  obtain ⟨hg, hends, υ, hυ, hnone⟩ := hc
  refine ⟨hg, ?_⟩
  -- the first end is gone back to, and the others are joined
  have hfirst : ∀ {e : Snapshot} {τ : View}, ArmEnd σ p.store e τ →
      (p.restored e).store.Agrees τ ∧ (p.restored e).store.Good ∧
        p.store.Reaches (fun _ => False) (p.restored e).store := by
    rintro e τ ⟨⟨ended, hgood, rfl, hagrees, hr⟩, hsame⟩
    exact ⟨restored_agrees hgood hagrees hr hυ fun i hi => hnone i ((hsame i).mp hi),
      restored_good h hgood hr, restored_reaches h hgood hr⟩
  generalize c.after σ = view at hends ⊢
  cases hends with
  | one last => exact (hfirst last).1
  | @more e rest τ υ first others =>
    obtain ⟨hagrees, hgood, hr⟩ := hfirst first
    exact (others.later hr).joined hgood hagrees first.same

end

/-! ## Items -/

mutual

/-- The check of an item keeps to its course. -/
theorem itemCourse_follows (i : Item) {set : Setting} {p : Point} {σ : View} (hi : i.Fits)
    (h : p.Ready set) (ha : p.store.Agrees σ) (hs : (itemCourse set p i).Steady σ) :
    Follows σ (itemCourse set p i) (p.past (checkItem set i none)).store := by
  have hreaches := (checkItem_alone_reports i hi h.good h.holds).reaches p.log
  match i with
  -- a statement without parts follows its one path; the others follow the courses of their parts
  | .bad .. =>
    exact ⟨trivial, ha⟩
  | .letVar d =>
    exact straight_follows h.good ha (issues_letVar h.good set d.placed_any hi fun _ => rfl)
  | .constant d =>
    exact straight_follows h.good ha (issues_constant h.good set d.placed_any hi fun _ => rfl)
  | .function f | .structType d | .classType d functions | .enumType d | .traitType d functions
  | .implementation d functions | .moduleBlock d body | .use d =>
    exact declaring_follows ha hreaches hs
  | .expression e =>
    exact straight_follows h.good ha (issues_expression h.good set e.placed_any hi none)
  | .returnWith pos value =>
    have hreturn : Issues .any _ (checkItem set (.returnWith pos value) none) _ :=
      issues_return h.good h.holds trivial (fun e _ => e.placed_any) hi none
    obtain ⟨hg, ha'⟩ := straight_follows h.good ha hreturn
    exact ⟨⟨hg, trivial⟩, ha'⟩
  | .ifElse _ cond thenBody elseBody =>
    rw [checkItem]
    have hcond := issues_condition h.good hi.1 "if condition"
    have h₁ := hcond.ready h
    refine (straight_follows h.good ha hcond).seq fun ha₁ => ?_
    -- the second branch is checked from the view before the first, and the two are joined
    refine branches_follow h₁ ha₁ hs.2.1 (h₁.block .block hi.2.1) ?_
      (fun h' => h'.elseBody hi.2.2) ?_
    · exact block_follows rfl h₁ ha₁ hi.2.1 fun h' ha' =>
        bodyCourse_follows thenBody hi.2.1 h' ha' hs.2.1
    · exact fun h' ha' => elseCourse_follows elseBody hi.2.2 h' ha' hs.2.2
  | .whileLoop _ cond body =>
    rw [checkItem]
    have hcond := issues_condition h.good hi.1 "while condition"
    have h₁ := hcond.ready h
    obtain ⟨hg, ha₁⟩ := straight_follows h.good ha hcond
    refine rounds_follow hg h₁.good ha₁ (h₁.block .loop hi.2) ?_
    exact block_follows rfl h₁ ha₁ hi.2 fun h' ha' => bodyCourse_follows body hi.2 h' ha' hs.1
  | .forEach pos var iter body =>
    rw [forEach_eq, Point.past_bind]
    have hiter : Issues .any _ _ _ := issues_evaluateIter h.good hi.1
    refine (straight_follows h.good ha hiter).seq fun ha₁ => ?_
    exact forEach_follows (hiter.ready h) ha₁ pos var hiter.past_result hi.2
      fun h' ha' => bodyCourse_follows body hi.2 h' ha' hs.2.1.2
  | .loop _ body =>
    rw [itemCourse] at hs ⊢
    rw [checkItem]
    obtain ⟨hg, ha'⟩ := block_follows rfl h ha hi fun h' ha' =>
      bodyCourse_follows body hi h' ha' hs.1
    refine ⟨⟨trivial, hg⟩, ?_⟩
    rw [Course.after, if_neg Bool.false_ne_true]
    exact ha'
  | .breakLoop pos | .continueLoop pos =>
    rw [itemCourse, checkItem]
    refine ⟨trivial, ?_⟩
    rw [insideLoop_past]
    exact ha
  | .matchOn pos scrutinee arms =>
    rw [matchOn_eq, Point.past_bind, Point.past_ledger, Point.past_bind]
    have hscrutinee : Issues .any _ _ _ := issues_evaluateScrutinee h.good hi.1
    have h₁ := hscrutinee.ready h
    have ht := hscrutinee.past_result
    refine (straight_follows h.good ha hscrutinee).seq fun ha₁ => ?_
    match arms with
    -- a match without arms joins nothing, so the case of no arms stands apart
    | [] =>
      rw [armsCourse, checkArms]
      exact ⟨trivial, ha₁⟩
    | a :: rest =>
      exact arms_follow (h₁.arms ht hi.2 h₁.good (.refl _)).past_good
        (armsCourse_follows (a :: rest)
        (by simp) hi.2 h₁ ht ha₁ h₁.good (.refl _) ⟨_, ha₁, fun _ h => h⟩ hs.2)
  | .block _ body =>
    rw [checkItem]
    obtain ⟨hg, ha'⟩ := block_follows rfl h ha hi fun h' ha' => bodyCourse_follows body hi h' ha' hs
    exact ⟨hg, ha'⟩

/-- The course of a body, statement by statement. -/
theorem bodyCourse_follows (items : List Item) {set : Setting} {p : Point} {σ : View}
    (hi : Item.AllFit items) (h : p.Ready set) (ha : p.store.Agrees σ)
    (hs : (bodyCourse set p items).Steady σ) :
    Follows σ (bodyCourse set p items) (p.past (checkBody set items)).store := by
  match items with
  | [] =>
    exact ⟨trivial, ha⟩
  | i :: rest =>
    rw [checkBody]
    have hitem := checkItem_alone_reports i hi.1 h.good h.holds
    obtain ⟨hg, ha'⟩ := itemCourse_follows i hi.1 h ha hs.1
    obtain ⟨hg', ha''⟩ := bodyCourse_follows rest hi.2 (hitem.ready h) ha' hs.2
    exact ⟨⟨hg, hg'⟩, ha''⟩

theorem elseCourse_follows (body : Option (List Item)) {set : Setting} {p : Point} {σ : View}
    (hi : Item.BodyFits body) (h : p.Ready set) (ha : p.store.Agrees σ)
    (hs : (elseCourse set p body).Steady σ) :
    FollowsInside σ (elseCourse set p body) (p.past (checkElse set body)).store := by
  match body with
  | none =>
    rw [elseCourse, checkElse]
    refine ⟨trivial, ?_⟩
    rw [Course.after, View.after, List.foldl_nil, View.within_eq_self fun _ h => h]
    exact ha
  | some items =>
    rw [checkElse]
    exact block_follows rfl h ha hi fun h' ha' => bodyCourse_follows items hi h' ha' hs

/-- The courses of the arms, each of which starts with what was known before the first. -/
theorem armsCourse_follows (arms : List Arm) {set : Setting} {t : Ty} {before p : Point} {σ : View}
    (hne : arms ≠ []) (ha : Arm.AllFit arms) (hb : before.Ready set) (ht : before.store.Holds t)
    (hab : before.store.Agrees σ) (h : p.store.Good)
    (hr : before.store.Reaches (fun _ => False) p.store)
    (hp : ∃ τ, p.store.Agrees τ ∧ ∀ i, σ i = none → τ i = none)
    (hs : (armsCourse set t before.snapshot p arms).Steady σ) :
    ArmsFollow σ (armsCourse set t before.snapshot p arms)
      (p.past (checkArms set t before.snapshot arms)).store
      (p.result (checkArms set t before.snapshot arms)) := by
  obtain ⟨τ, hτ, hnone⟩ := hp
  have h' := hb.restored h hr
  have hr' := hr.trans (restored_reaches h hb.good hr)
  -- every arm starts from the view `σ` before the match, whatever the arms before it did
  have hagrees := restored_agrees hb.good hab hr hτ hnone
  match arms with
  | [a] =>
    rw [armsCourse] at hs ⊢
    have hfollow := armCourse_follows a ha.1 h' (hr'.holds ht) hagrees hs
    have hrun := h'.arm (hr'.holds ht) ha.1
    have hlast : checkArms set t before.snapshot [] = pure [] := by rw [checkArms]
    rw [checkArms, hlast]
    exact ⟨hfollow.granted, .one (hfollow.armEnd hrun.past_good hs), _, hfollow.agrees,
      fun _ => View.within_eq_none _⟩
  | a :: b :: rest =>
    rw [armsCourse] at hs ⊢
    have hfollow := armCourse_follows a ha.1 h' (hr'.holds ht) hagrees hs.1
    have hrun := h'.arm (hr'.holds ht) ha.1
    have hr'' := hr'.trans hrun.past_reaches
    have hnext := armsCourse_follows (b :: rest) (by simp) ha.2 hb ht hab hrun.past_good hr''
      ⟨_, hfollow.agrees, fun _ => View.within_eq_none _⟩ hs.2
    have hmore := hb.arms ht ha.2 hrun.past_good hr''
    rw [checkArms]
    refine ⟨⟨hfollow.granted, hnext.granted⟩, ?_, hnext.agrees⟩
    rw [Course.after, View.within_eq_self fun i => (hnext.ends.same i).mpr]
    exact .more ((hfollow.armEnd hrun.past_good hs.1).later hmore.past_reaches) hnext.ends

theorem armCourse_follows (a : Arm) {set : Setting} {t : Ty} {p : Point} {σ : View} (ha : a.Fits)
    (h : p.Ready set) (ht : p.store.Holds t) (hagrees : p.store.Agrees σ)
    (hs : (armCourse set t p a).Steady σ) :
    FollowsInside σ (armCourse set t p a) (p.past (checkArm set t a)).store := by
  match a with
  | .mk pat guard body =>
    have h' := h.opened .block
    have hbind : Issues .any _ _ _ := issues_bindArm h'.good pat ht ha.1
    rw [checkArm_eq]
    refine inScope_follows rfl h.good hagrees pat.pos (h.prepared hbind ha.2) ?_
    refine (straight_follows h'.good (hagrees.opened h.good .block) hbind).seq fun ha₁ => ?_
    exact bodyCourse_follows body ha.2 (hbind.ready h') ha₁ hs.2

end

/-! ## A loop that binds a parameter -/

def roundBinding : Item :=
  .letVar ⟨.unknown, ⟨"u", .unknown⟩, none, some (.ident "t" .unknown), false⟩

/-- Its body is a loop, in each round of which the value of its parameter goes to a new variable. -/
def bindingInLoop : Function :=
  .mk ⟨⟨.unknown, ⟨"f", .unknown⟩, false⟩, [], [⟨⟨"t", .unknown⟩, none, false⟩], none⟩
    (some [.loop .unknown [roundBinding]])

/-- The parameter is `0`, and the variable that is bound `1`. -/
def bindingCourse (kind : AccessKind) : Course :=
  .seq (.events [.declared 0 true]) (.seq
    (.rounds false [] (.seq (.events [.accessed 0 kind, .declared 1 true]) (.events [])))
    (.events []))

theorem functionCourse_bindingInLoop {p : Point} {t r : Ty} {kind : AccessKind}
    (hdeclare : p.straight (declareParams none bindingInLoop.head [t]) = .events [.declared 0 true])
    (hround : ((p.past (declareParams none bindingInLoop.head [t])).opened .loop).straight
      (checkItem { result := some r } roundBinding none) =
        .events [.accessed 0 kind, .declared 1 true]) :
    functionCourse {} none bindingInLoop ⟨[t], r⟩ p = bindingCourse kind := by
  have hbody : bindingInLoop.body = some [.loop .unknown [roundBinding]] := rfl
  rw [functionCourse, hbody, hdeclare]
  simp only [bodyCourse, itemCourse]
  rw [roundBinding, itemCourse, ← roundBinding, hround]
  rfl

/-- Twice around the loop. -/
theorem bindingCourse_path (kind : AccessKind) : (bindingCourse kind).Path
    [.declared 0 true, .accessed 0 kind, .declared 1 true, .accessed 0 kind,
      .declared 1 true] .onward :=
  have round := Course.Path.next (.events [.accessed 0 kind, .declared 1 true]) (.events [])
  .next (.events [.declared 0 true])
    (.next (.again round (.inl rfl) (.again round (.inl rfl) (.done ..))) (.events []))

/-- To read the parameter leaves it as it was. -/
theorem bindingCourse_steady {σ : View} (hσ : σ 1 = none) : (bindingCourse .read).Steady σ := by
  have hkept : ∀ {i : Nat} {st st' : Status}, View.after σ [.declared 0 true] i = some st →
      View.after σ [.declared 0 true, .accessed 0 .read, .declared 1 true] i =
      some st' → st' = st := by
    intro i st st' hst hst'
    by_cases hi : i = 1
    · subst hi
      simp [View.after, View.step, hσ] at hst
    · by_cases h0 : i = 0
      · subst h0
        simp [View.after, View.step] at hst hst'
        simp [← hst, ← hst', Status.after]
      · simp [View.after, View.step, hi, h0] at hst hst'
        rw [hst] at hst'
        exact (Option.some.inj hst').symm
  refine ⟨trivial, ⟨⟨trivial, trivial⟩, fun i st st' hst hst' hm => ?_,
    fun _ i st st' hst hst' hi => ?_⟩, trivial⟩
  · exact hkept hst hst' ▸ hm
  · exact hkept hst hst' ▸ hi

/-! ## Bodies of functions -/

section

variable {s : Store} {set : Setting} {self : Option Ty} {f : Function} {signature : Signature}

/-- All accesses on all paths through a function that is checked are granted, if loops keep
steady. -/
theorem functionCourse_granted (h : s.Good) (hf : f.Fits) (hself : ∀ t ∈ self, s.Holds t)
    (hparams : ∀ t ∈ signature.params, s.Holds t)
    (hresult : s.Holds signature.result) {log : List Diagnostic}
    (hs : (functionCourse set self f signature ⟨log, s⟩).Steady s.ledger.status) :
    (functionCourse set self f signature ⟨log, s⟩).Granted s.ledger.status := by
  cases f with
  | mk head body =>
    have hissues : Issues .any _ _ _ := issues_declareParams h hself head.placed_any hparams
    have hdeclare := straight_follows (p := ⟨log, s⟩) h s.agrees_status hissues
    refine ⟨hdeclare.granted, ?_⟩
    cases body with
    | none => trivial
    | some items =>
      have hset : Setting.Holds { set with result := some signature.result }
          ((⟨log, s⟩ : Point).past (declareParams self head signature.params)).store := by
        intro t ht
        obtain rfl := Option.some.inj ht
        exact (hissues.reaches log).holds hresult
      exact (bodyCourse_follows items hf ⟨hissues.past_good, hset⟩ hdeclare.agrees hs.2).granted

/-- A path through the body of a function accesses a variable only while it has not been moved, and
unless it is to write, only once it has a value. This is so of each access that the check has
granted; one that it refuses is an error. -/
theorem paths_access_variables_as_allowed (h : s.Good) (hf : f.Fits)
    (hself : ∀ t ∈ self, s.registry.Holds t) (hparams : ∀ t ∈ signature.params, s.registry.Holds t)
    (hresult : s.registry.Holds signature.result) {log : List Diagnostic}
    (hs : (functionCourse set self f signature ⟨log, s⟩).Steady s.ledger.status)
    {evs : List VarEvent} {l : Leaving}
    (hpath : (functionCourse set self f signature ⟨log, s⟩).Path evs l)
    {before behind : List VarEvent} {i : Nat} {kind : AccessKind}
    (hevs : evs = before ++ .accessed i kind :: behind) :
    ∃ st, View.after s.ledger.status before i = some st ∧
      st.moved = false ∧ (kind = .write ∨ st.initialized = true) := by
  have hgranted := functionCourse_granted h hf hself hparams hresult hs
  obtain ⟨hallows, -⟩ := hpath.lands hgranted hs (View.Covers.refl _)
  rw [hevs] at hallows
  exact hallows.at_access

end

/-- An integer is read in each round. -/
theorem paths_access_variables_as_allowed_in_loop :
    let course := functionCourse {} none bindingInLoop ⟨[.basic .int], .basic .unit⟩ ⟨[], {}⟩
    let first : List VarEvent := [.declared 0 true, .accessed 0 .read, .declared 1 true]
    course.Steady ({} : Store).ledger.status ∧
      course.Path (first ++ [.accessed 0 .read, .declared 1 true]) .onward ∧
      ∃ st, View.after ({} : Store).ledger.status first 0 = some st ∧
        st.moved = false ∧ (AccessKind.read = .write ∨ st.initialized = true) := by
  have heq : functionCourse {} none bindingInLoop ⟨[.basic .int], .basic .unit⟩ ⟨[], {}⟩ =
      bindingCourse .read :=
    functionCourse_bindingInLoop (congrArg Course.events (by decide +kernel))
      (congrArg Course.events (by decide +kernel))
  have hsteady := heq ▸ bindingCourse_steady (σ := ({} : Store).ledger.status) rfl
  have hpath := heq ▸ bindingCourse_path .read
  have hbasic := Store.good_empty.registry.basic
  refine ⟨hsteady, hpath, ?_⟩
  exact paths_access_variables_as_allowed Store.good_empty (by simp [bindingInLoop, roundBinding])
    (by simp) (by simpa using hbasic .int) (hbasic .unit) hsteady hpath rfl

/-- A token is moved in the first round. The check has no complaint, but the second round finds the
token moved. -/
theorem loop_moves_twice :
    let s : Store := ((register (.named "Token" [])).run {}).2
    let signature : Signature := ⟨[.named "Token" []], .basic .unit⟩
    s.Good ∧ bindingInLoop.Fits ∧ (∀ t ∈ signature.params, s.registry.Holds t) ∧
      s.registry.Holds signature.result ∧
      ((⟨[], s⟩ : Point).past (checkFunctionBody {} none bindingInLoop signature)).log = [] ∧
      ∃ before behind, (functionCourse {} none bindingInLoop signature ⟨[], s⟩).Path
          (before ++ .accessed 0 .move :: behind) .onward ∧
        View.after s.ledger.status before 0 = some ⟨true, true⟩ := by
  have hregister : Ends (.over .any fun _ => False) {} (register (.named "Token" [])) fun s' u =>
      u = .named "Token" [] ∧ s'.registry.Holds (.named "Token" []) :=
    register_compound_ends Store.good_empty ⟨nofun, nofun, nofun⟩ nofun
  have heq : functionCourse {} none bindingInLoop ⟨[.named "Token" []], .basic .unit⟩
      ⟨[], ((register (.named "Token" [])).run {}).2⟩ = bindingCourse .move :=
    functionCourse_bindingInLoop (congrArg Course.events (by decide +kernel))
      (congrArg Course.events (by decide +kernel))
  refine ⟨hregister.good, by simp [bindingInLoop, roundBinding], by simpa using hregister.result.2,
    hregister.good.registry.basic .unit, List.isEmpty_iff.mp (by decide +kernel),
    [.declared 0 true, .accessed 0 .move, .declared 1 true], [.declared 1 true],
    heq ▸ bindingCourse_path .move, ?_⟩
  rfl

end Analysis

end UnitCheck
