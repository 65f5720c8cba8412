import UnitCheck.Proofs.Analysis.Choices

/-!
# Assignments to variables that are not mutable

A variable that is not mutable may be assigned to while it has no value. Whether it has one, the
check knows for all paths at once: where branches meet, a variable has a value if it has one on each
of them. So it may happen that a path has assigned to a variable and the check does not know, and
then the variable can be assigned to again (`assigned_on_one_branch_and_again`).

Where this does not happen, no path that goes round each loop once at most (`Course.OncePath`)
assigns twice to such a variable (`immutable_assigned_at_most_once`). `itemSure` and `bodySure` say
where: if a path through a statement has assigned to the variable, the check knows that it has a
value behind the statement, or nothing is assigned to it there. The invariant of the proof counts:
what a path has assigned is not more than what the check knows (`AssignsKnown`).
-/

namespace UnitCheck

open Checking List

/-! ## Counting -/

/-- The variable is declared with a value, or written. -/
def VarEvent.assigns (i : Nat) : VarEvent → Bool
  | declared j initialized => j == i && initialized
  | accessed j kind => j == i && kind == .write

/-- How often the variable `i` is assigned to. -/
def assignments (i : Nat) (evs : List VarEvent) : Nat := evs.countP (·.assigns i)

/-- One if the variable is known to have a value. -/
def View.given (σ : View) (i : Nat) : Nat :=
  match σ i with
  | some st => st.initialized.toNat
  | none => 0

section

variable {i : Nat} {evs : List VarEvent}

theorem assignments_cons (e : VarEvent) (evs : List VarEvent) :
    assignments i (e :: evs) = assignments i evs + (e.assigns i).toNat := by
  rw [assignments, countP_cons]
  cases e.assigns i <;> rfl

theorem assignments_append (evs evs' : List VarEvent) :
    assignments i (evs ++ evs') = assignments i evs + assignments i evs' :=
  countP_append

/-- Variables that are declared somewhere else. -/
theorem assignments_filter_eq_zero {f : VarEvent → Bool}
    (hdeclared : ∀ initialized, .declared i initialized ∉ evs)
    (haccessed : ∀ j kind, f (.accessed j kind) = false) : assignments i (evs.filter f) = 0 := by
  rw [assignments, countP_eq_zero]
  rintro (⟨j, initialized⟩ | ⟨j, kind⟩) hmem
  · have hj : j ≠ i := by
      rintro rfl
      exact hdeclared initialized (mem_of_mem_filter hmem)
    simp [VarEvent.assigns, hj]
  · rw [mem_filter, haccessed] at hmem
    exact absurd hmem.2 Bool.false_ne_true

namespace View

theorem given_le (σ : View) (i : Nat) : σ.given i ≤ 1 := by
  unfold given
  split
  · exact Bool.toNat_le _
  · exact Nat.zero_le 1

theorem given_update_self (σ : View) (i : Nat) (st : Status) :
    given (Function.update σ i (some st)) i = st.initialized.toNat := by
  rw [given, Function.update_self]

theorem given_update_of_ne {j : Nat} (σ : View) (hj : j ≠ i) (st : Status) :
    given (Function.update σ j (some st)) i = given σ i := by
  rw [given, given, Function.update_of_ne (Ne.symm hj)]

end View

/-- A variable that may not be assigned to again is assigned to only while it has no value. -/
theorem Trace.assignments_le {V F : Nat → Prop} {σ σ' : View} (h : Trace V F σ evs σ') (hi : F i) :
    assignments i evs + σ.given i ≤ View.given σ' i := by
  induction h with
  | nil => exact Nat.le_of_eq (Nat.zero_add _)
  | @accessed evs τ j st kind _ _ known _ first ih =>
    rw [assignments_cons]
    by_cases hj : j = i
    · subst hj
      have hbefore : View.given τ j = st.initialized.toNat := by rw [View.given, known]
      rw [View.given_update_self]
      rw [hbefore] at ih
      by_cases hk : kind = .write
      · -- the write was granted, so there was no value before it
        have hnone : st.initialized = false := first hk hi
        have hassigns : (VarEvent.accessed j kind).assigns j = true := by
          simp [VarEvent.assigns, hk]
        have hafter : (st.after kind).initialized = true := by simp [Status.after, hk]
        rw [hassigns, hafter]
        rw [hnone] at ih
        simp only [Bool.toNat_true, Bool.toNat_false] at ih ⊢
        omega
      · have hassigns : (VarEvent.accessed j kind).assigns j = false := by
          simp [VarEvent.assigns, hk]
        have hafter : (st.after kind).initialized = st.initialized := by simp [Status.after, hk]
        rw [hassigns, hafter]
        exact ih
    · have hassigns : (VarEvent.accessed j kind).assigns i = false := by simp [VarEvent.assigns, hj]
      rw [View.given_update_of_ne τ hj, hassigns]
      exact ih
  | @declared evs τ j initialized _ new ih =>
    rw [assignments_cons]
    by_cases hj : j = i
    · subst hj
      have hbefore : View.given τ j = 0 := by rw [View.given, new]
      have hassigns : (VarEvent.declared j initialized).assigns j = initialized := by
        simp [VarEvent.assigns]
      rw [View.given_update_self, hassigns]
      show _ ≤ initialized.toNat
      omega
    · have hassigns : (VarEvent.declared j initialized).assigns i = false := by
        simp [VarEvent.assigns, hj]
      rw [View.given_update_of_ne τ hj, hassigns]
      exact ih

end

namespace Store

variable {P : Int → Prop} {s s' s'' : Store} {i : Nat}

/-- One if the variable is known to have a value. -/
abbrev given (s : Store) (i : Nat) : Nat := View.given s.ledger.status i

theorem given_eq (s : Store) (i : Nat) : s.given i = (s.ledger.isInitialized i).toNat := by
  rw [given, View.given, Ledger.status, Ledger.isInitialized]
  cases s.ledger.get? i <;> rfl

/-- A value that is known of stays known. -/
theorem Keeps.given_le (hk : s.Keeps P s') (hr : s.Reaches P s') : s.given i ≤ s'.given i := by
  rw [given_eq, given_eq, Ledger.isInitialized, Ledger.isInitialized]
  cases hget : s.ledger.get? i with
  | none => exact Nat.zero_le _
  | some k =>
    obtain ⟨k', hk', -⟩ := hr.holdings hget
    rw [hk']
    exact Bool.toNat_le_toNat (hk.initialized hget hk')

theorem fixed_of_continues (hl : s.ledger.Continues s'.ledger) (hf : s'.Fixed i) : s.Fixed i := by
  intro k hk
  obtain ⟨k', hk', hlabel⟩ := hl.get? hk
  have hmutable : k'.mutable = k.mutable := congrArg Prod.snd hlabel
  rw [← hmutable]
  exact hf k' hk'

theorem Undeclared.fixed (h : s.Undeclared s' i) (hr : s.Reaches P s') (hf : s'.Fixed i) :
    s.Fixed i := by
  intro k hk
  obtain ⟨k', hk', hlabel⟩ := hr.holdings hk
  have hmutable : k'.mutable = k.mutable :=
    congrArg Prod.snd (hlabel (h (Ledger.isTracked_iff.mpr ⟨k, hk⟩)))
  rw [← hmutable]
  exact hf k' hk'

end Store

namespace Course

/-! ## Paths that go round each loop once at most -/

inductive OncePath : Course → List VarEvent → Leaving → Prop where
  | events (evs : List VarEvent) : OncePath (.events evs) evs .onward
  | next {a b : Course} {evs evs' : List VarEvent} {l : Leaving} (first : OncePath a evs .onward)
      (second : OncePath b evs' l) : OncePath (.seq a b) (evs ++ evs') l
  | cut {a : Course} {evs : List VarEvent} {l : Leaving} (b : Course) (first : OncePath a evs l)
      (hl : l ≠ .onward) : OncePath (.seq a b) evs l
  | block {body : Course} {evs : List VarEvent} {l : Leaving} (inner : OncePath body evs l) :
      OncePath (.block body) evs l
  | first {a : Course} {evs : List VarEvent} {l : Leaving} (b : Course) (taken : OncePath a evs l) :
      OncePath (.either a b) evs l
  | second {b : Course} {evs : List VarEvent} {l : Leaving} (a : Course)
    (taken : OncePath b evs l) :
      OncePath (.either a b) evs l
  | done (joined : Bool) (head : List VarEvent) (body : Course) :
      OncePath (.rounds joined head body) head .onward
  /-- The head is gone through again to find that there is no other round. -/
  | once {joined : Bool} {head : List VarEvent} {body : Course} {evs : List VarEvent} {l : Leaving}
      (round : OncePath body evs l) (hl : l = .onward ∨ l = .continued) :
      OncePath (.rounds joined head body) (head ++ evs ++ head) .onward
  | broke {joined : Bool} {head : List VarEvent} {body : Course} {evs : List VarEvent}
      (round : OncePath body evs .broke) : OncePath (.rounds joined head body) (head ++ evs) .onward
  | returned {joined : Bool} {head : List VarEvent} {body : Course} {evs : List VarEvent}
      (round : OncePath body evs .returned) :
      OncePath (.rounds joined head body) (head ++ evs) .returned
  | leave (how : Leaving) : OncePath (.leave how) [] how
  | declaration (evs : List VarEvent) (seen : Nat → Prop) (left : View) :
      OncePath (.declaration evs seen left) evs .onward

end Course

namespace Analysis

/-! ## Where the check knows what has been assigned -/

mutual

/-- In the bodies of the item the check knows of the assignments to `i` that matter (`bodySure`).
The head of a loop does not assign to it, if it comes again after a round, and no declaration
declares it. -/
def itemSure (set : Setting) (i : Nat) (p : Point) : Item → Prop
  | .bad .. => True
  | .letVar _ => True
  | .constant _ => True
  | .function f => ¬ p.store.Declared (p.past (checkItem set (.function f) none)).store i
  | .structType d => ¬ p.store.Declared (p.past (checkItem set (.structType d) none)).store i
  | .classType d functions =>
    ¬ p.store.Declared (p.past (checkItem set (.classType d functions) none)).store i
  | .enumType d => ¬ p.store.Declared (p.past (checkItem set (.enumType d) none)).store i
  | .traitType d functions =>
    ¬ p.store.Declared (p.past (checkItem set (.traitType d functions) none)).store i
  | .implementation d functions =>
    ¬ p.store.Declared (p.past (checkItem set (.implementation d functions) none)).store i
  | .moduleBlock d body =>
    ¬ p.store.Declared (p.past (checkItem set (.moduleBlock d body) none)).store i
  | .use d => ¬ p.store.Declared (p.past (checkItem set (.use d) none)).store i
  | .expression _ => True
  | .returnWith .. => True
  | .ifElse _ cond thenBody elseBody =>
    let tested := p.past (reporting (condition cond "if condition"))
    let ended := tested.past (checkBlock set .block thenBody)
    bodySure set i (tested.opened .block) thenBody ∧
      elseSure set i (ended.restored tested.snapshot) elseBody
  | .whileLoop _ cond body =>
    let tested := p.past (reporting (condition cond "while condition"))
    (assignments i (p.store.eventsTo tested.store) = 0 ∨
        ∀ evs l, (bodyCourse set (tested.opened .loop) body).OncePath evs l → l = .broke ∨
        l = .returned) ∧
      bodySure set i (tested.opened .loop) body
  | .forEach _ var iter body =>
    let inside := (p.past (evaluateIter iter)).opened .loop
    bodySure set i (inside.past (declareLoopVar var (p.result (evaluateIter iter)))) body
  | .loop _ body => bodySure set i (p.opened .loop) body
  | .breakLoop _ => True
  | .continueLoop _ => True
  | .matchOn _ scrutinee arms =>
    let evaluated := p.past (evaluateScrutinee scrutinee)
    armsSure set i (p.result (evaluateScrutinee scrutinee)) evaluated.snapshot evaluated arms
  | .block _ body => bodySure set i (p.opened .block) body

/-- If a path through a statement has assigned to `i` and goes on behind the statement, the check
knows that `i` has a value there, or the rest of the body does not assign to it. -/
def bodySure (set : Setting) (i : Nat) (p : Point) : List Item → Prop
  | [] => True
  | item :: rest =>
    let ended := p.past (checkItem set item none)
    itemSure set i p item ∧
      (∀ evs, (itemCourse set p item).OncePath evs .onward → 0 < assignments i evs →
        ended.store.ledger.isInitialized i = true ∨
          ∀ evs' l, (bodyCourse set ended rest).OncePath evs' l → assignments i evs' = 0) ∧
      bodySure set i ended rest

def elseSure (set : Setting) (i : Nat) (p : Point) : Option (List Item) → Prop
  | none => True
  | some body => bodySure set i (p.opened .block) body

def armsSure (set : Setting) (i : Nat) (t : Ty) (before : Snapshot) (p : Point) : List Arm → Prop
  | [] => True
  | a :: rest =>
    armSure set i t (p.restored before) a ∧
      armsSure set i t before ((p.restored before).past (checkArm set t a)) rest

def armSure (set : Setting) (i : Nat) (t : Ty) (p : Point) : Arm → Prop
  | .mk pat guard body => bodySure set i ((p.opened .block).past (bindArm pat t guard)) body

end

/-! ## Courses that assign once -/

/-- From the store `s` to the store `s'`, no path through the course assigns to `i` twice, or at all
if it is known in the store `before` to have a value. -/
structure Branch (i : Nat) (c : Course) (before s s' : Store) : Prop where
  reaches : s.Reaches (fun _ => True) s'
  undeclared : s.Undeclared s' i
  once : s'.Fixed i → ∀ evs l, c.OncePath evs l → assignments i evs + before.given i ≤ 1

/-- The same if it is known where the course starts. -/
abbrev AssignsOnce (i : Nat) (c : Course) (s s' : Store) : Prop := Branch i c s s s'

/-- What a path assigns that goes on is known afterwards. -/
structure AssignsKnown (i : Nat) (c : Course) (s s' : Store) : Prop extends Branch i c s s s' where
  known : s'.Fixed i → ∀ evs, c.OncePath evs .onward → assignments i evs + s.given i ≤ s'.given i

section

variable {α : Type} {P : Int → Prop} {i : Nat} {p : Point} {a b c : Course} {s s' s'' : Store}
  {before : Store}
  {set : Setting} {act : AnalysisM α} {kind : ScopeKind}

theorem Branch.fixed (h : Branch i c before s s') (hf : s'.Fixed i) : s.Fixed i :=
  h.undeclared.fixed h.reaches hf

/-- Nothing is assigned. -/
theorem Branch.idle (hc : ∀ evs l, c.OncePath evs l → evs = []) : Branch i c before s s where
  reaches := .refl s
  undeclared := Store.undeclared_of_trail rfl
  once _ evs l hpath := by
    rw [hc evs l hpath]
    exact Nat.le_trans (Nat.le_of_eq (Nat.zero_add _)) (View.given_le _ i)

theorem AssignsOnce.known (h : AssignsOnce i c s s')
    (hsure : ∀ evs, c.OncePath evs .onward → 0 < assignments i evs →
      s'.ledger.isInitialized i = true)
    (hle : s.given i ≤ s'.given i) : AssignsKnown i c s s' := by
  refine ⟨h, fun hf evs hpath => ?_⟩
  rcases Nat.eq_zero_or_pos (assignments i evs) with hzero | hpos
  · omega
  · have honce := h.once hf evs .onward hpath
    rw [Store.given_eq s', hsure evs hpath hpos]
    exact honce

theorem AssignsKnown.seq_once (ha : AssignsKnown i a s s') (hb : AssignsOnce i b s' s'') :
    AssignsOnce i (.seq a b) s s'' := by
  refine ⟨ha.reaches.trans hb.reaches,
    ha.undeclared.trans hb.undeclared ha.reaches hb.reaches.trail,
    fun hf evs l hpath => ?_⟩
  cases hpath with
  | next first second =>
    have hfirst := ha.known (hb.fixed hf) _ first
    have hsecond := hb.once hf _ _ second
    rw [assignments_append]
    omega
  | cut _ first _ => exact ha.once (hb.fixed hf) _ _ first

/-- What has been assigned need not be known where nothing is assigned any more. -/
theorem AssignsOnce.seq_silent (ha : AssignsOnce i a s s') (hb : AssignsOnce i b s' s'')
    (hsilent : ∀ evs l, b.OncePath evs l → assignments i evs = 0) :
    AssignsOnce i (.seq a b) s s'' := by
  refine ⟨ha.reaches.trans hb.reaches,
    ha.undeclared.trans hb.undeclared ha.reaches hb.reaches.trail,
    fun hf evs l hpath => ?_⟩
  cases hpath with
  | next first second =>
    rw [assignments_append, hsilent _ _ second]
    exact ha.once (hb.fixed hf) _ _ first
  | cut _ first _ => exact ha.once (hb.fixed hf) _ _ first

theorem branch_nothing (i : Nat) (before s : Store) : Branch i (.events []) before s s :=
  .idle fun _ _ hpath => by cases hpath; rfl

theorem assignsKnown_nothing (i : Nat) (s : Store) : AssignsKnown i (.events []) s s where
  toBranch := branch_nothing i s s
  known _ evs hpath := by
    cases hpath
    exact Nat.le_of_eq (Nat.zero_add _)

theorem assignsOnce_leave (i : Nat) (how : Leaving) (s : Store) : AssignsOnce i (.leave how) s s :=
  .idle fun _ _ hpath => by cases hpath; rfl

/-- Events that were issued one after the other. -/
theorem straight_assigns {Q : Store → α → Prop} (hact : Issues .any p.store act Q) :
    AssignsKnown i (p.straight act) p.store (p.past act).store := by
  have hknown : (p.past act).store.Fixed i → ∀ evs l, (p.straight act).OncePath evs l →
      assignments i evs + p.store.given i ≤ (p.past act).store.given i := by
    rintro hf evs l ⟨⟩
    obtain ⟨evs, htrail, htrace⟩ := (hact.events p.log).events
    have hevents : p.store.eventsTo (p.past act).store = evs.reverse :=
      Store.eventsTo_of_trail htrail
    rw [hevents, assignments, countP_reverse]
    exact htrace.assignments_le hf
  refine ⟨⟨hact.past_reaches.mono fun _ _ => trivial, fun htracked => ?_, fun hf evs l hpath => ?_⟩,
    fun hf evs hpath => hknown hf evs _ hpath⟩
  · obtain ⟨k, hk⟩ := Ledger.isTracked_iff.mp htracked
    exact (hact.events p.log).not_declared hk
  · exact Nat.le_trans (hknown hf evs l hpath) (View.given_le _ i)

theorem AssignsOnce.block (h : AssignsOnce i c s s') : AssignsOnce i (.block c) s s' := by
  refine ⟨h.reaches, h.undeclared, fun hf evs l hpath => ?_⟩
  cases hpath with
  | block inner => exact h.once hf evs l inner

/-- A declaration that declares other variables only. -/
theorem declaring_assigns (hno : ¬ p.store.Declared (p.past act).store i)
    (hr : p.store.Reaches P (p.past act).store) :
    AssignsOnce i (p.declaring act) p.store (p.past act).store := by
  refine ⟨hr.mono fun _ _ => trivial, fun _ => hno, fun _ evs l hpath => ?_⟩
  cases hpath
  obtain ⟨evs, htrail⟩ := hr.trail
  have hother : ∀ initialized, .declared i initialized ∉ p.store.eventsTo (p.past act).store := by
    intro initialized hmem
    rw [Store.eventsTo_of_trail htrail.symm, mem_reverse] at hmem
    exact hno ⟨evs, htrail.symm, i, initialized, rfl, hmem⟩
  rw [assignments_filter_eq_zero hother fun _ _ => rfl, Nat.zero_add]
  exact View.given_le _ i

theorem inScope_assigns (h : p.store.Good) (pos : Position) {act : AnalysisM Unit}
    (hact : Runs .any (p.store.opened kind) act)
    (hc : AssignsOnce i c (p.opened kind).store ((p.opened kind).past act).store) :
    AssignsOnce i c p.store (p.past (inScope kind pos act)).store := by
  have hreaches := (inScope_reports (P := fun _ => True) h kind pos hact).past_reaches
  rw [inScope_past h pos hact] at hreaches ⊢
  refine ⟨hreaches, hc.undeclared, fun hf => hc.once ?_⟩
  exact Store.fixed_of_continues (Ledger.continues_release _ _) hf

theorem block_assigns (h : p.Ready set) {items : List Item} (hi : Item.AllFit items)
    (hc : (p.opened kind).Ready set →
      AssignsOnce i c (p.opened kind).store ((p.opened kind).past (checkBody set items)).store) :
    AssignsOnce i c p.store (p.past (checkBlock set kind items)).store := by
  rw [checkBlock_eq]
  have h' := h.opened kind
  exact inScope_assigns h.good _ (h'.body hi) (hc h')

/-! ## Branches and rounds -/

/-- Going back to a snapshot or joining one changes only what is known of variables. -/
theorem Branch.later (h : Branch i c before s s') (hr : s'.Reaches P s'')
    (ht : s''.trail = s'.trail) : Branch i c before s s'' := by
  have hsame : s'.Undeclared s'' i := Store.undeclared_of_trail ht
  refine ⟨h.reaches.trans (hr.mono fun _ _ => trivial),
    h.undeclared.trans hsame h.reaches hr.trail, ?_⟩
  exact fun hf => h.once (hsame.fixed hr hf)

/-- What was known before the branches is known again. -/
theorem AssignsOnce.restored {q : Point} (h : AssignsOnce i c (q.restored p.snapshot).store s)
    (hr : p.store.Reaches P q.store) (hr' : q.store.Reaches P (q.restored p.snapshot).store) :
    Branch i c p.store q.store s := by
  have hsame : q.store.Undeclared (q.restored p.snapshot).store i := Store.undeclared_of_trail rfl
  refine ⟨(hr'.mono fun _ _ => trivial).trans h.reaches,
    hsame.trans h.undeclared hr' h.reaches.trail,
    fun hf evs l hpath => ?_⟩
  have honce := h.once hf evs l hpath
  have hgiven : p.store.given i ≤ (q.restored p.snapshot).store.given i := by
    cases hst : p.store.ledger.status i with
    | none =>
      rw [Store.given, View.given, hst]
      exact Nat.zero_le _
    | some st =>
      rw [Store.given, Store.given, View.given, View.given, restored_status hst hr, hst]
  omega

theorem Branch.either (ha : Branch i a before s s') (hb : Branch i b before s' s'') :
    Branch i (.either a b) before s s'' := by
  refine ⟨ha.reaches.trans hb.reaches,
    ha.undeclared.trans hb.undeclared ha.reaches hb.reaches.trail,
    fun hf evs l hpath => ?_⟩
  cases hpath with
  | first _ taken => exact ha.once (hb.fixed hf) evs l taken
  | second _ taken => exact hb.once hf evs l taken

/-- Either branch assigns at most once, starting from the same knowledge, and so does the choice
between them. -/
theorem branches_assign (h : p.Ready set) {first second : AnalysisM Unit}
    (hfirst : RunsUnder .any (fun _ => False) p.store first)
    (ha : AssignsOnce i a p.store (p.past first).store)
    (hsecond : let q := (p.past first).restored p.snapshot
      q.Ready set → RunsUnder .any (fun _ => False) q.store second)
    (hb : let q := (p.past first).restored p.snapshot
      q.Ready set → AssignsOnce i b q.store (q.past second).store) :
    AssignsOnce i (.either a b) p.store (p.past (branching first second)).store := by
  have hr := hfirst.past_reaches
  have h' := h.restored hfirst.past_good hr
  have hbranch := (hb h').restored hr (restored_reaches hfirst.past_good h.good hr)
  exact (ha.either hbranch).later
    (joined_reaches (hsecond h').past_good (p.past first).snapshot) rfl

/-- A loop assigns at most once if its head does not, or if no path through the body comes back to
the head. -/
theorem rounds_assign {joined : Bool} {head : List VarEvent}
    (hhead : AssignsKnown i (.events head) s s')
    (hagain : assignments i head = 0 ∨ ∀ evs l, c.OncePath evs l → l = .broke ∨ l = .returned)
    (hbody : AssignsOnce i c s' s'') : AssignsOnce i (.rounds joined head c) s s'' := by
  refine ⟨hhead.reaches.trans hbody.reaches,
    hhead.undeclared.trans hbody.undeclared hhead.reaches hbody.reaches.trail,
    fun hf evs l hpath => ?_⟩
  have hknown := hhead.known (hbody.fixed hf) head (.events head)
  have hround := hbody.once hf
  cases hpath with
  | done => exact hhead.once (hbody.fixed hf) head .onward (.events head)
  | once round hl =>
    rcases hagain with hzero | hleaves
    · have honce := hround _ _ round
      rw [assignments_append, assignments_append]
      omega
    · rcases hl with rfl | rfl <;> simpa using hleaves _ _ round
  | broke round | returned round =>
    have honce := hround _ _ round
    rw [assignments_append]
    omega

theorem joinedRound_assigns {round : AnalysisM Unit} (hround : (p.past round).store.Good)
    (hc : AssignsOnce i c p.store (p.past round).store) :
    AssignsOnce i c p.store (p.past (repeating round)).store :=
  hc.later (joined_reaches hround p.snapshot) rfl

/-- A `for` declares its variable anew in each round. -/
theorem forEach_assigns (h : p.Ready set) (pos : Position) (var : Label) {elem : Ty}
    (helem : p.store.Holds elem) {body : List Item} (hi : Item.AllFit body)
    (hc : let q := (p.opened .loop).past (declareLoopVar var elem)
      q.Ready set → AssignsOnce i c q.store (q.past (checkBody set body)).store) :
    AssignsOnce i (.rounds true [] (.seq ((p.opened .loop).straight (declareLoopVar var elem)) c))
      p.store (p.past (repeating (inScope .loop pos do
        declareLoopVar var elem
        checkBody set body))).store := by
  have h' := h.opened .loop
  have hvar : Issues .any _ (declareLoopVar var elem) _ := issues_loopVar h'.good trivial helem
  have hround := h.prepared hvar hi
  have honce := (straight_assigns hvar).seq_once (hc (hvar.ready h'))
  refine rounds_assign (assignsKnown_nothing i _) (.inl rfl) (joinedRound_assigns ?_ ?_)
  · exact (inScope_reports (P := fun _ => False) h.good .loop pos hround).past_good
  · exact inScope_assigns h.good pos hround honce

theorem joinArms_trail (ends : List Snapshot) (p : Point) :
    (p.past (joinArms ends)).store.trail = p.store.trail := by
  have hothers : ∀ (others : List Snapshot) (q : Point),
      (q.past (others.forM fun other => onLedger (·.join other) : AnalysisM Unit)).store.trail =
        q.store.trail := by
    intro others
    induction others with
    | nil => exact fun _ => rfl
    | cons e others ih => exact fun q => ih (q.joined e)
  cases ends with
  | nil => rfl
  | cons first others => exact hothers others (p.restored first)

theorem joinArms_reaches {s₀ : Store} {ends : List Snapshot} (h : p.store.Good)
    (hends : EndsOf before s₀ p.store ends) :
    p.store.Reaches (fun _ => False) (p.past (joinArms ends)).store := by
  cases ends with
  | nil => exact .refl _
  | cons first others => exact (mergeEnds_endsUnder (A := .any) h hends).reaches p.log

end

/-! ## Items -/

mutual

/-- No path through the item assigns twice to a variable that is not mutable. -/
theorem itemCourse_assigns (item : Item) {set : Setting} {p : Point} {i : Nat} (hi : item.Fits)
    (h : p.Ready set) (hs : itemSure set i p item) :
    AssignsOnce i (itemCourse set p item) p.store (p.past (checkItem set item none)).store := by
  have hreaches := (checkItem_alone_reports item hi h.good h.holds).reaches p.log
  match item with
  -- plain statements have one path, the others are put together from the courses of their parts
  | .bad .. =>
    exact branch_nothing i _ _
  | .letVar d =>
    exact (straight_assigns (issues_letVar h.good set d.placed_any hi fun _ => rfl)).toBranch
  | .constant d =>
    exact (straight_assigns (issues_constant h.good set d.placed_any hi fun _ => rfl)).toBranch
  | .function f | .structType d | .classType d functions | .enumType d | .traitType d functions
  | .implementation d functions | .moduleBlock d body | .use d =>
    exact declaring_assigns hs hreaches
  | .expression e =>
    exact (straight_assigns (issues_expression h.good set e.placed_any hi none)).toBranch
  | .returnWith pos value =>
    have hreturn : Issues .any _ (checkItem set (.returnWith pos value) none) _ :=
      issues_return h.good h.holds trivial (fun e _ => e.placed_any) hi none
    exact (straight_assigns hreturn).seq_once (assignsOnce_leave i _ _)
  | .ifElse _ cond thenBody elseBody =>
    have hcond := issues_condition h.good hi.1 "if condition"
    have h₁ := hcond.ready h
    refine (straight_assigns hcond).seq_once
      (branches_assign h₁ (h₁.block .block hi.2.1) ?_ (fun h' => h'.elseBody hi.2.2) ?_)
    · exact block_assigns h₁ hi.2.1 fun h' => bodyCourse_assigns thenBody hi.2.1 h' hs.1
    · exact fun h' => elseCourse_assigns elseBody hi.2.2 h' hs.2
  | .whileLoop _ cond body =>
    have hcond := issues_condition h.good hi.1 "while condition"
    have h₁ := hcond.ready h
    -- the end of the round is joined with what was known before it
    refine rounds_assign (straight_assigns hcond) hs.1 (joinedRound_assigns ?_ ?_)
    · exact (h₁.block .loop hi.2).past_good
    · exact block_assigns h₁ hi.2 fun h' => bodyCourse_assigns body hi.2 h' hs.2
  | .forEach pos var iter body =>
    rw [itemCourse, forEach_eq, Point.past_bind]
    have hiter : Issues .any _ _ _ := issues_evaluateIter h.good hi.1
    exact (straight_assigns hiter).seq_once
      (forEach_assigns (hiter.ready h) pos var hiter.past_result hi.2
      fun h' => bodyCourse_assigns body hi.2 h' hs)
  | .loop _ body =>
    refine rounds_assign (assignsKnown_nothing i _) (.inl rfl) (block_assigns h hi fun h' => ?_)
    exact bodyCourse_assigns body hi h' hs
  | .breakLoop pos | .continueLoop pos =>
    rw [itemCourse, checkItem, insideLoop_past]
    exact assignsOnce_leave i _ _
  | .matchOn pos scrutinee arms =>
    rw [itemCourse, matchOn_eq, Point.past_bind, Point.past_ledger, Point.past_bind]
    have hscrutinee : Issues .any _ _ _ := issues_evaluateScrutinee h.good hi.1
    have h₁ := hscrutinee.ready h
    have ht := hscrutinee.past_result
    have hends := h₁.arms ht hi.2 h₁.good (.refl _)
    -- the join behind the arms assigns to nothing
    have harms := armsCourse_assigns arms hi.2 h₁ ht h₁.good (.refl _) hs
    exact (straight_assigns hscrutinee).seq_once (harms.later
      (joinArms_reaches hends.past_good hends.past_result) (joinArms_trail _ _))
  | .block _ body =>
    exact (block_assigns h hi fun h' => bodyCourse_assigns body hi h' hs).block

/-- The statements of a body one after the other: what may assign again is ruled out by what is
known by then. -/
theorem bodyCourse_assigns (items : List Item) {set : Setting} {p : Point} {i : Nat}
    (hi : Item.AllFit items) (h : p.Ready set) (hs : bodySure set i p items) :
    AssignsOnce i (bodyCourse set p items) p.store (p.past (checkBody set items)).store := by
  match items with
  | [] =>
    exact branch_nothing i _ _
  | item :: rest =>
    obtain ⟨hitem, hsure, hrest⟩ := hs
    have hreports := checkItem_alone_reports item hi.1 h.good h.holds
    have hkeeps := hreports.keeps p.log (by rintro scope rfl; exact h.good.alive_current)
    have hfirst := itemCourse_assigns item hi.1 h hitem
    have hsecond := bodyCourse_assigns rest hi.2 (hreports.ready h) hrest
    -- only where the rest assigns must the check know what has been assigned before it
    by_cases hsilent :
      ∀ evs l, (bodyCourse set (p.past (checkItem set item none)) rest).OncePath evs l →
        assignments i evs = 0
    · exact hfirst.seq_silent hsecond hsilent
    · have hknown :=
        hfirst.known (fun evs hpath hpos => (hsure evs hpath hpos).resolve_right hsilent)
        (hkeeps.given_le hreports.past_reaches)
      exact hknown.seq_once hsecond

theorem elseCourse_assigns (body : Option (List Item)) {set : Setting} {p : Point} {i : Nat}
    (hi : Item.BodyFits body) (h : p.Ready set) (hs : elseSure set i p body) :
    AssignsOnce i (elseCourse set p body) p.store (p.past (checkElse set body)).store := by
  match body with
  | none =>
    exact branch_nothing i _ _
  | some items =>
    exact block_assigns h hi fun h' => bodyCourse_assigns items hi h' hs

/-- The arms of a match are branches that all start from what was known before the first. -/
theorem armsCourse_assigns (arms : List Arm) {set : Setting} {t : Ty} {before p : Point} {i : Nat}
    (ha : Arm.AllFit arms) (hb : before.Ready set) (ht : before.store.Holds t) (h : p.store.Good)
    (hr : before.store.Reaches (fun _ => False) p.store)
    (hs : armsSure set i t before.snapshot p arms) :
    Branch i (armsCourse set t before.snapshot p arms) before.store p.store
      (p.past (checkArms set t before.snapshot arms)).store := by
  have h' := hb.restored h hr
  have hback := restored_reaches h hb.good hr
  have hr' := hr.trans hback
  have hlast : checkArms set t before.snapshot [] = pure [] := by rw [checkArms]
  match arms with
  | [] =>
    rw [armsCourse, hlast]
    exact branch_nothing i _ _
  | [a] =>
    rw [armsCourse, checkArms, hlast]
    have harm := armCourse_assigns a ha.1 h' (hr'.holds ht) hs.1
    exact harm.block.restored hr hback
  | a :: b :: rest =>
    have harm := armCourse_assigns a ha.1 h' (hr'.holds ht) hs.1
    have hrun := h'.arm (hr'.holds ht) ha.1
    have hnext := armsCourse_assigns (b :: rest) ha.2 hb ht hrun.past_good
      (hr'.trans hrun.past_reaches) hs.2
    rw [armsCourse, checkArms]
    exact (harm.restored hr hback).either hnext

theorem armCourse_assigns (a : Arm) {set : Setting} {t : Ty} {p : Point} {i : Nat} (ha : a.Fits)
    (h : p.Ready set) (ht : p.store.Holds t) (hs : armSure set i t p a) :
    AssignsOnce i (armCourse set t p a) p.store (p.past (checkArm set t a)).store := by
  match a with
  | .mk pat guard body =>
    rw [armCourse, checkArm_eq]
    have h' := h.opened .block
    have hbind : Issues .any _ _ _ := issues_bindArm h'.good pat ht ha.1
    have hbody := bodyCourse_assigns body ha.2 (hbind.ready h') hs
    exact inScope_assigns h.good pat.pos (h.prepared hbind ha.2)
      ((straight_assigns hbind).seq_once hbody)

end

/-! ## Bodies of functions -/

/-- In the body of a function, the check knows of the assignments to `i`. -/
def functionSure (set : Setting) (self : Option Ty) (f : Function) (signature : Signature) (i : Nat)
    (p : Point) : Prop :=
  ∀ body ∈ f.body, bodySure { set with result := some signature.result } i
    (p.past (declareParams self f.head signature.params)) body

/-- A variable that is not mutable is assigned to at most once on each path through the body of a
function that goes round each loop once at most, its declaration with a value being an assignment.
This is so where the check knows of each assignment behind the statement in which it is made, unless
no other one follows. -/
theorem immutable_assigned_at_most_once {s : Store} {set : Setting} {self : Option Ty}
    {f : Function} {signature : Signature} (h : s.Good) (hf : f.Fits)
    (hself : ∀ t ∈ self, s.registry.Holds t)
    (hparams : ∀ t ∈ signature.params, s.registry.Holds t)
    (hresult : s.registry.Holds signature.result) {log : List Diagnostic} {i : Nat} {k : Holding}
    (hk : ((⟨log, s⟩ : Point).past (checkFunctionBody set self f signature)).store.ledger.get? i =
      some k)
    (hmutable : k.mutable = false) (hsure : functionSure set self f signature i ⟨log, s⟩)
    {evs : List VarEvent} {l : Leaving}
    (hpath : (functionCourse set self f signature ⟨log, s⟩).OncePath evs l) :
    assignments i evs ≤ 1 := by
  have hissues : Issues .any _ _ _ := issues_declareParams h hself f.head.placed_any hparams
  have hdeclare : AssignsKnown i _ _ _ := straight_assigns (p := ⟨log, s⟩) hissues
  have hset : Setting.Holds { set with result := some signature.result }
      ((⟨log, s⟩ : Point).past (declareParams self f.head signature.params)).store := by
    intro t ht
    obtain rfl := Option.some.inj ht
    exact (hissues.reaches log).holds hresult
  -- in the end the variable is known as one that is not mutable
  have hfixed :
    ((⟨log, s⟩ : Point).past (checkFunctionBody set self f signature)).store.Fixed i := by
    intro k' hk'
    obtain rfl := Option.some.inj (hk.symm.trans hk')
    exact hmutable
  -- the parameters are declared before the body, which has a course of its own
  have hfunction : AssignsOnce i (functionCourse set self f signature ⟨log, s⟩) s
      ((⟨log, s⟩ : Point).past (checkFunctionBody set self f signature)).store := by
    obtain ⟨head, body⟩ := f
    rw [Function.Fits] at hf
    refine hdeclare.seq_once ?_
    cases body with
    | none => exact branch_nothing i _ _
    | some items =>
      rw [Item.BodyFits] at hf
      exact bodyCourse_assigns items hf ⟨hissues.past_good, hset⟩ (hsure items rfl)
  exact Nat.le_of_add_right_le (hfunction.once hfixed evs l hpath)

/-- A variable is declared without a value, one branch assigns to it, and there may be more. -/
def assigningLate (elseBody : Option (List Item)) (rest : List Item) : Function :=
  .mk ⟨⟨.unknown, ⟨"f", .unknown⟩, false⟩, [], [], none⟩ (some (lateVariable ::
    .ifElse .unknown (.literal (.bool true) .unknown) [lateAssignment 1] elseBody :: rest))

theorem assigningLate_fits : (assigningLate (some [lateAssignment 2]) []).Fits ∧
    (assigningLate none [lateAssignment 2]).Fits := by
  have hassign : Operator.assign ∈ Operator.binary := by decide
  constructor <;> simp [assigningLate, lateVariable, lateAssignment, hassign]

/-- Both branches assign to the variable. -/
theorem immutable_assigned_at_most_once_on_both_branches :
    let course :=
      functionCourse {} none (assigningLate (some [lateAssignment 2]) [])
        ⟨[], .basic .unit⟩ ⟨[], {}⟩
    (∃ evs, course.OncePath evs .onward ∧ assignments 0 evs = 1) ∧
      ∀ evs l, course.OncePath evs l → assignments 0 evs ≤ 1 := by
  have hbody : (assigningLate (some [lateAssignment 2]) []).body = some [lateVariable,
    .ifElse .unknown (.literal (.bool true) .unknown) [lateAssignment 1]
    (some [lateAssignment 2])] := rfl
  have hbasic := Store.good_empty.registry.basic
  constructor
  · rw [functionCourse, hbody]
    simp only [bodyCourse, itemCourse, elseCourse, lateVariable, lateAssignment]
    refine ⟨_, .next (.events _) (.next (.events _) (.next (.next (.events _)
      (.first _ (.next (.events _) (.events [])))) (.events []))), ?_⟩
    decide +kernel
  · have hsure :
      functionSure {} none (assigningLate (some [lateAssignment 2]) []) ⟨[], .basic .unit⟩ 0
        ⟨[], {}⟩ := by
      intro body hmem
      obtain rfl := Option.some.inj (hbody.symm.trans hmem)
      simp only [bodySure, itemSure, elseSure, lateVariable, lateAssignment]
      refine ⟨trivial, ?_, ⟨⟨trivial, fun _ _ _ => .inl (by decide +kernel), trivial⟩, trivial,
        fun _ _ _ => .inl (by decide +kernel), trivial⟩,
        fun _ _ _ => .inl (by decide +kernel), trivial⟩
      -- the declaration alone assigns nothing
      intro evs hpath hpos
      rw [itemCourse] at hpath
      cases hpath
      exact absurd hpos (by decide +kernel)
    have hheld : ∃ k, ((⟨[], {}⟩ : Point).past (checkFunctionBody {} none
        (assigningLate (some [lateAssignment 2]) []) ⟨[], .basic .unit⟩)).store.ledger.get? 0 =
        some k ∧
          k.mutable = false :=
      Option.map_eq_some_iff.mp (by decide +kernel)
    obtain ⟨k, hk, hmutable⟩ := hheld
    exact fun evs l hpath => immutable_assigned_at_most_once Store.good_empty assigningLate_fits.1
      (by simp) (by simp) (hbasic .unit) hk hmutable hsure hpath

/-- Only one branch assigns to the variable. Behind the branches the check does not know that it has
a value, and lets it be assigned to again. -/
theorem assigned_on_one_branch_and_again :
    let f := assigningLate none [lateAssignment 2]
    let ended := (⟨[], {}⟩ : Point).past (checkFunctionBody {} none f ⟨[], .basic .unit⟩)
    f.Fits ∧ ended.log = [] ∧ (ended.store.ledger.get? 0).map (·.mutable) = some false ∧
      ∃ evs, (functionCourse {} none f ⟨[], .basic .unit⟩ ⟨[], {}⟩).OncePath evs .onward ∧
        assignments 0 evs = 2 := by
  refine ⟨assigningLate_fits.2, List.isEmpty_iff.mp (by decide +kernel), by decide +kernel, ?_⟩
  have hbody : (assigningLate none [lateAssignment 2]).body = some [lateVariable,
    .ifElse .unknown (.literal (.bool true) .unknown) [lateAssignment 1] none, lateAssignment 2] :=
      rfl
  rw [functionCourse, hbody]
  simp only [bodyCourse, itemCourse, elseCourse, lateVariable, lateAssignment]
  refine ⟨_, .next (.events _) (.next (.events _) (.next (.next (.events _)
    (.first _ (.next (.events _) (.events [])))) (.next (.events _) (.events [])))), ?_⟩
  decide +kernel

end Analysis

end UnitCheck
