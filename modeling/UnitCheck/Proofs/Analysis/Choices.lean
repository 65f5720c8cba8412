import UnitCheck.Proofs.Analysis.Paths

/-!
# Choices of branches

A path through plain statements (expressions, variables, blocks and branches, `Item.Plain`) takes
one branch of each statement that has some. There are as many paths as there are choices of
branches, and the check knows of all of them what it is to know: after such statements a variable
has a value if it had one before or is written on every path, and it has been moved if it was before
or is moved on some path (`merged_branches_exact`).

`Course.Settles i c st st'` says so of a course and of the status of one variable before and after
it, and follows the course as it is put together: `Settles.seq`, `Settles.either`. What the check
does at the end of branches comes to a join of statuses (`branches_settle`, `joinArms_status`).
-/

namespace UnitCheck

open Checking List Ledger

variable {i : Nat}

mutual

/-- Nothing but expressions, variables, blocks and branches. -/
@[simp] def Item.Plain : Item → Prop
  | .bad .. => True
  | .letVar _ => True
  | .constant _ => True
  | .expression _ => True
  | .ifElse _ _ thenBody elseBody => Item.AllPlain thenBody ∧ Item.BodyPlain elseBody
  | .matchOn _ _ arms => Arm.AllPlain arms
  | .block _ body => Item.AllPlain body
  | _ => False

@[simp] def Item.AllPlain : List Item → Prop
  | [] => True
  | i :: rest => i.Plain ∧ Item.AllPlain rest

@[simp] def Item.BodyPlain : Option (List Item) → Prop
  | none => True
  | some body => Item.AllPlain body

@[simp] def Arm.Plain : Arm → Prop
  | .mk _ _ body => Item.AllPlain body

@[simp] def Arm.AllPlain : List Arm → Prop
  | [] => True
  | a :: rest => a.Plain ∧ Arm.AllPlain rest

end

namespace Course

/-! ## Paths that go on -/

section

variable {a b c : Course} {evs : List VarEvent} {l : Leaving}

theorem path_events_iff {evs' : List VarEvent} :
    (Course.events evs).Path evs' l ↔ evs' = evs ∧ l = .onward := by
  constructor
  · rintro ⟨⟩
    exact ⟨rfl, rfl⟩
  · rintro ⟨rfl, rfl⟩
    exact .events evs'

theorem path_seq_onward_iff : (Course.seq a b).Path evs .onward ↔
      ∃ evs₁ evs₂, evs = evs₁ ++ evs₂ ∧ a.Path evs₁ .onward ∧ b.Path evs₂ .onward := by
  constructor
  · intro h
    cases h with
    | next first second => exact ⟨_, _, rfl, first, second⟩
    | cut _ _ hl => exact absurd rfl hl
  · rintro ⟨evs₁, evs₂, rfl, first, second⟩
    exact .next first second

theorem path_block_iff : (Course.block c).Path evs l ↔ c.Path evs l := by
  constructor
  · rintro ⟨⟩
    assumption
  · exact .block

theorem path_either_iff : (Course.either a b).Path evs l ↔ a.Path evs l ∨ b.Path evs l := by
  constructor
  · intro h
    cases h with
    | first _ taken => exact .inl taken
    | second _ taken => exact .inr taken
  · rintro (h | h)
    · exact .first b h
    · exact .second a h

end

/-! ## What paths do to a variable -/

/-- Every path goes on to the end. The variable `i`, which was in the status `st` before, has a
value afterwards if it had one or every path writes to it, and has been moved if it was or some path
moves it. -/
structure Settles (i : Nat) (c : Course) (st st' : Status) : Prop where
  onward : ∀ {evs : List VarEvent} {l : Leaving}, c.Path evs l → l = .onward
  taken : ∃ evs, c.Path evs .onward
  initialized : st'.initialized = true ↔
    st.initialized = true ∨ ∀ evs, c.Path evs .onward → .accessed i .write ∈ evs
  moved : st'.moved = true ↔ st.moved = true ∨ ∃ evs, c.Path evs .onward ∧ .accessed i .move ∈ evs

section

variable {i : Nat} {a b c : Course} {st st₁ st₂ : Status}

theorem settles_events {evs : List VarEvent}
    (hi : st₁.initialized = true ↔ st.initialized = true ∨ .accessed i .write ∈ evs)
    (hm : st₁.moved = true ↔ st.moved = true ∨ .accessed i .move ∈ evs) :
    Settles i (.events evs) st st₁ where
  onward h := (path_events_iff.mp h).2
  taken := ⟨evs, .events evs⟩
  initialized := by simp only [path_events_iff, and_true, forall_eq, hi]
  moved := by simp only [path_events_iff, and_true, exists_eq_left, hm]

theorem settles_nothing (i : Nat) (st : Status) : Settles i (.events []) st st :=
  settles_events (by simp) (by simp)

theorem Settles.block (h : Settles i c st st₁) : Settles i (.block c) st st₁ where
  onward hp := h.onward (path_block_iff.mp hp)
  taken := h.taken.imp fun _ => .block
  initialized := by simp only [path_block_iff, h.initialized]
  moved := by simp only [path_block_iff, h.moved]

/-- Each path of the first course goes on with each path of the second. -/
theorem Settles.seq (ha : Settles i a st st₁) (hb : Settles i b st₁ st₂) :
    Settles i (.seq a b) st st₂ where
  onward h := by
    cases h with
    | next _ second => exact hb.onward second
    | cut _ first hl => exact absurd (ha.onward first) hl
  taken := by
    obtain ⟨evs, first⟩ := ha.taken
    obtain ⟨evs', second⟩ := hb.taken
    exact ⟨evs ++ evs', .next first second⟩
  initialized := by
    rw [hb.initialized, ha.initialized, or_assoc]
    refine or_congr_right ⟨?_, fun hall => ?_⟩
    · rintro hwritten evs hp
      obtain ⟨evs₁, evs₂, rfl, first, second⟩ := path_seq_onward_iff.mp hp
      rw [mem_append]
      exact hwritten.imp (fun h => h evs₁ first) fun h => h evs₂ second
    · -- if neither course writes on all its paths, two that do not make a path that does not
      by_contra hnone
      simp only [not_or, not_forall] at hnone
      obtain ⟨⟨evs₁, first, hno₁⟩, evs₂, second, hno₂⟩ := hnone
      rcases mem_append.mp (hall _ (.next first second)) with hmem | hmem
      · exact hno₁ hmem
      · exact hno₂ hmem
  moved := by
    rw [hb.moved, ha.moved, or_assoc]
    refine or_congr_right ⟨?_, ?_⟩
    · rintro (⟨evs₁, first, hmem⟩ | ⟨evs₂, second, hmem⟩)
      · obtain ⟨evs₂, second⟩ := hb.taken
        exact ⟨_, .next first second, mem_append_left _ hmem⟩
      · obtain ⟨evs₁, first⟩ := ha.taken
        exact ⟨_, .next first second, mem_append_right _ hmem⟩
    · rintro ⟨evs, hp, hmem⟩
      obtain ⟨evs₁, evs₂, rfl, first, second⟩ := path_seq_onward_iff.mp hp
      rcases mem_append.mp hmem with hmem | hmem
      · exact .inl ⟨evs₁, first, hmem⟩
      · exact .inr ⟨evs₂, second, hmem⟩

theorem Settles.either (ha : Settles i a st st₁) (hb : Settles i b st st₂) :
    Settles i (.either a b) st (st₁.join st₂) where
  onward h := (path_either_iff.mp h).elim ha.onward hb.onward
  taken := ha.taken.imp fun _ => .first b
  initialized := by
    simp only [path_either_iff, or_imp, forall_and]
    rw [or_and_left, ← ha.initialized, ← hb.initialized]
    exact Bool.and_eq_true_iff
  moved := by
    simp only [path_either_iff, or_and_right, exists_or]
    rw [or_or_distrib_left, ← ha.moved, ← hb.moved]
    exact Bool.or_eq_true_iff

end

end Course

/-! ## Statuses -/

theorem Ledger.get?_of_status {l : Ledger} {st : Status} (h : l.status i = some st) :
    ∃ k, l.get? i = some k ∧ k.status = st :=
  Option.map_eq_some_iff.mp h

theorem VarEvent.accessed_eq_iff {kind kind' : AccessKind} :
    VarEvent.accessed i kind = .accessed i kind' ↔ kind' = kind :=
  ⟨fun h => (VarEvent.accessed.inj h).2.symm, fun h => h ▸ rfl⟩

/-- A variable that is there already gets a value by being written, and is gone by being moved. -/
theorem Trace.settles {V F : Nat → Prop} {σ σ' : Nat → Option Status} {evs : List VarEvent}
    (h : Trace V F σ evs σ') {st : Status} (hst : σ i = some st) :
    ∃ st', σ' i = some st' ∧
    (st'.initialized = true ↔ st.initialized = true ∨ .accessed i .write ∈ evs) ∧
      (st'.moved = true ↔ st.moved = true ∨ .accessed i .move ∈ evs) := by
  induction h with
  | nil => exact ⟨st, hst, by simp, by simp⟩
  | @accessed evs τ j x kind _ _ known _ _ ih =>
    obtain ⟨st', hst', hi, hm⟩ := ih
    by_cases hj : i = j
    · subst hj
      obtain rfl := Option.mem_unique known hst'
      refine ⟨x.after kind, by rw [Function.update_self], ?_, ?_⟩
      · rw [Status.after, Bool.or_eq_true_iff, hi, decide_eq_true_eq, or_right_comm, or_assoc,
          mem_cons, VarEvent.accessed_eq_iff]
      · rw [Status.after, Bool.or_eq_true_iff, hm, decide_eq_true_eq, or_right_comm, or_assoc,
          mem_cons, VarEvent.accessed_eq_iff]
    · refine ⟨st', by rw [Function.update_of_ne hj, hst'], ?_, ?_⟩
      · simp [hi, hj]
      · simp [hm, hj]
  | @declared evs τ j initialized _ new ih =>
    obtain ⟨st', hst', hi, hm⟩ := ih
    have hj : i ≠ j := by
      rintro rfl
      rw [new] at hst'
      cases hst'
    exact ⟨st', by rw [Function.update_of_ne hj, hst'], by simpa using hi, by simpa using hm⟩

namespace Analysis

/-- The course `c`, gone through from the store `s` to the store `s'`, settles the variable `i`. -/
def SettlesFrom (i : Nat) (c : Course) (s s' : Store) : Prop :=
  ∀ st, s.ledger.status i = some st → ∃ st', s'.ledger.status i = some st' ∧
    Course.Settles i c st st'

section

variable {α : Type} {i : Nat} {p : Point} {a b c : Course} {s s' s'' : Store} {st : Status}
  {ends : List Snapshot}
  {e : Snapshot}

theorem SettlesFrom.seq (ha : SettlesFrom i a s s') (hb : SettlesFrom i b s' s'') :
    SettlesFrom i (.seq a b) s s'' := by
  intro st hst
  obtain ⟨st₁, hst₁, hsettles⟩ := ha st hst
  obtain ⟨st₂, hst₂, hsettles'⟩ := hb st₁ hst₁
  exact ⟨st₂, hst₂, hsettles.seq hsettles'⟩

theorem settlesFrom_nothing (i : Nat) (s : Store) : SettlesFrom i (.events []) s s :=
  fun st hst => ⟨st, hst, Course.settles_nothing i st⟩

theorem straight_settles {act : AnalysisM α} {Q : Store → α → Prop}
    (hact : Issues .any p.store act Q) :
    SettlesFrom i (p.straight act) p.store (p.past act).store := by
  intro st hst
  obtain ⟨evs, htrail, htrace⟩ := (hact.events p.log).events
  obtain ⟨st', hst', hi, hm⟩ := htrace.settles hst
  have hevents : p.store.eventsTo (p.past act).store = evs.reverse := Store.eventsTo_of_trail htrail
  refine ⟨st', hst', ?_⟩
  rw [Point.straight, hevents]
  exact Course.settles_events (by simpa using hi) (by simpa using hm)

/-- A scope is entered, gone through and left. -/
theorem inScope_settles {kind : ScopeKind} (h : p.store.Good) (pos : Position)
    {act : AnalysisM Unit} (hact : Runs .any (p.store.opened kind) act)
    (hc : SettlesFrom i c (p.opened kind).store ((p.opened kind).past act).store) :
    SettlesFrom i c p.store (p.past (inScope kind pos act)).store := by
  intro st hst
  obtain ⟨st', hst', hsettles⟩ := hc st hst
  refine ⟨st', ?_, hsettles⟩
  rw [inScope_past h pos hact]
  show (release _ _).status i = _
  rw [status_release, hst']

theorem block_settles {set : Setting} (h : p.Ready set) {items : List Item} (hi : Item.AllFit items)
    (hc : (p.opened .block).Ready set →
      SettlesFrom i c (p.opened .block).store
        ((p.opened .block).past (checkBody set items)).store) :
    SettlesFrom i c p.store (p.past (checkBlock set .block items)).store := by
  rw [checkBlock_eq]
  have h' := h.opened .block
  exact inScope_settles h.good _ (h'.body hi) (hc h')

/-! ## Branches -/

/-- A variable is again in the status in which the snapshot shows it. -/
theorem restored_status {q : Point} {P : Int → Prop} (hst : p.store.ledger.status i = some st)
    (hr : p.store.Reaches P q.store) : (q.restored p.snapshot).store.ledger.status i = some st := by
  obtain ⟨k, hk, -⟩ := get?_of_status hst
  obtain ⟨k', hk', -⟩ := hr.holdings hk
  show (q.store.ledger.restore p.store.ledger.snapshot).status i = some st
  rw [status_restore, status_snapshot, hst, status, hk']
  rfl

/-- A choice settles what both of its branches settle. -/
theorem branches_settle {first second : AnalysisM Unit}
    (hfirst : p.store.Reaches (fun _ => False) (p.past first).store)
    (ha : SettlesFrom i a p.store (p.past first).store)
    (hb : let q := (p.past first).restored p.snapshot
      SettlesFrom i b q.store (q.past second).store) :
    SettlesFrom i (.either a b) p.store (p.past (branching first second)).store := by
  intro st hst
  obtain ⟨st₁, hst₁, hsettles⟩ := ha st hst
  obtain ⟨st₂, hst₂, hsettles'⟩ := hb st (restored_status hst hfirst)
  refine ⟨st₁.join st₂, ?_, hsettles.either hsettles'⟩
  show (join _ (p.past first).store.ledger.snapshot).status i = _
  rw [status_join, status_snapshot, hst₁, Status.join_comm]
  exact congrArg (Option.map _) hst₂

/-- Arms of which each path takes one, and the snapshots of their ends. -/
structure ArmsSettle (i : Nat) (c : Course) (st : Status) (ends : List Snapshot) : Prop where
  settles : Course.Settles i c st ⟨ends.all (·.isInitialized i), ends.any (·.isMoved i)⟩
  taken : ends ≠ []

theorem ArmsSettle.one (h : Course.Settles i c st ⟨e.isInitialized i, e.isMoved i⟩) :
    ArmsSettle i (.block c) st [e] := by
  refine ⟨?_, by simp⟩
  simpa using h.block

theorem ArmsSettle.cons (ha : Course.Settles i a st ⟨e.isInitialized i, e.isMoved i⟩)
    (hb : ArmsSettle i b st ends) :
    ArmsSettle i (.either a b) st (e :: ends) := by
  refine ⟨?_, by simp⟩
  have hsettles := ha.either hb.settles
  simpa only [Status.join, all_cons, any_cons] using hsettles

/-- The status in which a snapshot shows a variable. -/
theorem snapshot_status {l : Ledger} (hst : l.status i = some st) :
    (⟨l.snapshot.isInitialized i, l.snapshot.isMoved i⟩ : Status) = st := by
  obtain ⟨k, hk, rfl⟩ := get?_of_status hst
  rw [Snapshot.isInitialized_snapshot hk, Snapshot.isMoved_snapshot hk]
  rfl

/-- After a match a variable has a value if it has one at all ends, and is moved if it is at
some. -/
theorem joinArms_status {before s₀ : Store} (h : p.store.Good)
    (hends : EndsOf before s₀ p.store ends)
    (hne : ends ≠ []) (hst : before.ledger.status i = some st)
    (hr : before.Reaches (fun _ => False) p.store) :
    (p.past (joinArms ends)).store.ledger.status i =
      some ⟨ends.all (·.isInitialized i), ends.any (·.isMoved i)⟩ := by
  obtain ⟨k, hk, -⟩ := get?_of_status hst
  match ends with
  | first :: others =>
    have hmerged := mergeEnds_endsUnder (A := .any) h hends
    obtain ⟨k', hk', -⟩ := (hr.trans (hmerged.reaches p.log)).holdings hk
    have hmerges := (hmerged.result p.log).1
    rw [← hmerges.initialized hk hk', ← hmerges.moved hk hk', status]
    exact congrArg (Option.map Holding.status) hk'

end

/-! ## Items -/

mutual

/-- What the check knows after a plain item is exact. -/
theorem itemCourse_settles (item : Item) {set : Setting} {p : Point} {i : Nat} (hplain : item.Plain)
    (hi : item.Fits) (h : p.Ready set) :
    SettlesFrom i (itemCourse set p item) p.store (p.past (checkItem set item none)).store := by
  match item with
  | .bad .. =>
    exact settlesFrom_nothing i _
  | .letVar d =>
    exact straight_settles (issues_letVar h.good set d.placed_any hi fun _ => rfl)
  | .constant d =>
    exact straight_settles (issues_constant h.good set d.placed_any hi fun _ => rfl)
  | .expression e =>
    exact straight_settles (issues_expression h.good set e.placed_any hi none)
  | .ifElse _ cond thenBody elseBody =>
    have hcond := issues_condition h.good hi.1 "if condition"
    have h₁ := hcond.ready h
    have hthen := h₁.block .block hi.2.1
    refine (straight_settles hcond).seq (branches_settle hthen.past_reaches ?_ ?_)
    · exact block_settles h₁ hi.2.1 fun h' => bodyCourse_settles thenBody hplain.1 hi.2.1 h'
    -- the second branch starts with what was known before the first
    · exact elseCourse_settles elseBody hplain.2 hi.2.2
        (h₁.restored hthen.past_good hthen.past_reaches)
  | .matchOn pos scrutinee arms =>
    rw [itemCourse, matchOn_eq, Point.past_bind, Point.past_ledger, Point.past_bind]
    have hscrutinee : Issues .any _ _ _ := issues_evaluateScrutinee h.good hi.1
    have h₁ := hscrutinee.ready h
    have ht := hscrutinee.past_result
    refine (straight_settles hscrutinee).seq ?_
    match arms with
    -- without arms there is nothing to join, and the scrutinee is all that is evaluated
    | [] =>
      rw [armsCourse, checkArms]
      exact settlesFrom_nothing i _
    | a :: rest =>
      intro st hst
      have hends := h₁.arms ht hi.2 h₁.good (.refl _)
      have harms := armsCourse_settles (a :: rest) (by simp) hplain hi.2 h₁ ht hst h₁.good (.refl _)
      exact ⟨_, joinArms_status hends.past_good hends.past_result harms.taken hst
        hends.past_reaches,
        harms.settles⟩
  | .block _ body =>
    intro st hst
    obtain ⟨st', hst', hsettles⟩ := block_settles h hi (bodyCourse_settles body hplain hi) st hst
    exact ⟨st', hst', hsettles.block⟩

theorem bodyCourse_settles (items : List Item) {set : Setting} {p : Point} {i : Nat}
    (hplain : Item.AllPlain items) (hi : Item.AllFit items) (h : p.Ready set) :
    SettlesFrom i (bodyCourse set p items) p.store (p.past (checkBody set items)).store := by
  match items with
  | [] =>
    exact settlesFrom_nothing i _
  | item :: rest =>
    have hitem := checkItem_alone_reports item hi.1 h.good h.holds
    exact (itemCourse_settles item hplain.1 hi.1 h).seq
      (bodyCourse_settles rest hplain.2 hi.2 (hitem.ready h))

theorem elseCourse_settles (body : Option (List Item)) {set : Setting} {p : Point} {i : Nat}
    (hplain : Item.BodyPlain body) (hi : Item.BodyFits body) (h : p.Ready set) :
    SettlesFrom i (elseCourse set p body) p.store (p.past (checkElse set body)).store := by
  match body with
  | none =>
    exact settlesFrom_nothing i _
  | some items =>
    exact block_settles h hi fun h' => bodyCourse_settles items hplain hi h'

/-- The arms of a match, by induction on their list; the last one is the base case. -/
theorem armsCourse_settles (arms : List Arm) {set : Setting} {t : Ty} {before p : Point} {i : Nat}
    {st : Status} (hne : arms ≠ []) (hplain : Arm.AllPlain arms) (ha : Arm.AllFit arms)
    (hb : before.Ready set) (ht : before.store.Holds t)
    (hst : before.store.ledger.status i = some st) (h : p.store.Good)
    (hr : before.store.Reaches (fun _ => False) p.store) :
    ArmsSettle i (armsCourse set t before.snapshot p arms) st
      (p.result (checkArms set t before.snapshot arms)) := by
  have h' := hb.restored h hr
  have hr' := hr.trans (restored_reaches h hb.good hr)
  have hstart := restored_status hst hr
  match arms with
  | [a] =>
    obtain ⟨st', hst', hsettles⟩ := armCourse_settles a hplain.1 ha.1 h' (hr'.holds ht) st hstart
    have hlast : checkArms set t before.snapshot [] = pure [] := by rw [checkArms]
    rw [armsCourse, checkArms, hlast]
    rw [← snapshot_status hst'] at hsettles
    exact .one hsettles
  | a :: b :: rest =>
    obtain ⟨st', hst', hsettles⟩ := armCourse_settles a hplain.1 ha.1 h' (hr'.holds ht) st hstart
    have hrun := h'.arm (hr'.holds ht) ha.1
    have hnext := armsCourse_settles (b :: rest) (by simp) hplain.2 ha.2 hb ht hst hrun.past_good
      (hr'.trans hrun.past_reaches)
    rw [armsCourse, checkArms]
    rw [← snapshot_status hst'] at hsettles
    exact .cons hsettles hnext

theorem armCourse_settles (a : Arm) {set : Setting} {t : Ty} {p : Point} {i : Nat}
    (hplain : a.Plain) (ha : a.Fits) (h : p.Ready set) (ht : p.store.Holds t) :
    SettlesFrom i (armCourse set t p a) p.store (p.past (checkArm set t a)).store := by
  match a with
  | .mk pat guard body =>
    rw [armCourse, checkArm_eq]
    have h' := h.opened .block
    have hbind : Issues .any _ _ _ := issues_bindArm h'.good pat ht ha.1
    refine inScope_settles h.good pat.pos (h.prepared hbind ha.2) ((straight_settles hbind).seq ?_)
    exact bodyCourse_settles body hplain ha.2 (hbind.ready h')

end

/-! ## Bodies -/

/-- After plain statements, a variable that was there before them has a value if it had one before
them or every path through them writes to it; it has been moved if it had been before them or some
path moves it. A path takes one branch of each statement with branches, and does what the check has
granted there. -/
theorem merged_branches_exact {items : List Item} {set : Setting} {p : Point} {i : Nat}
    (hplain : Item.AllPlain items) (hi : Item.AllFit items) (h : p.store.Good)
    (hset : set.Holds p.store) (htracked : p.store.ledger.isTracked i = true) :
    let ended := (p.past (checkBody set items)).store.ledger
    (ended.isInitialized i = true ↔ p.store.ledger.isInitialized i = true ∨
      ∀ evs l, (bodyCourse set p items).Path evs l → .accessed i .write ∈ evs) ∧
    (ended.isMoved i = true ↔ p.store.ledger.isMoved i = true ∨
      ∃ evs l, (bodyCourse set p items).Path evs l ∧ .accessed i .move ∈ evs) := by
  obtain ⟨k, hk⟩ := Ledger.isTracked_iff.mp htracked
  have hst : p.store.ledger.status i = some k.status := by
    rw [Ledger.status, hk]
    rfl
  obtain ⟨st', hst', hsettles⟩ := bodyCourse_settles items hplain hi ⟨h, hset⟩ _ hst
  obtain ⟨k', hk', rfl⟩ := Ledger.get?_of_status hst'
  simp only [Ledger.isInitialized, Ledger.isMoved, hk, hk']
  refine ⟨hsettles.initialized.trans (or_congr_right ?_), hsettles.moved.trans (or_congr_right ?_)⟩
  · refine ⟨fun hall evs l hpath => ?_, fun hall evs hpath => hall evs .onward hpath⟩
    obtain rfl := hsettles.onward hpath
    exact hall evs hpath
  · constructor
    · rintro ⟨evs, hpath, hmem⟩
      exact ⟨evs, .onward, hpath, hmem⟩
    · rintro ⟨evs, l, hpath, hmem⟩
      obtain rfl := hsettles.onward hpath
      exact ⟨evs, hpath, hmem⟩

/-- A variable of type `int` that may be assigned once, later. -/
def lateVariable : Item :=
  .letVar ⟨.unknown, ⟨"x", .unknown⟩, some (.named ["int"] [] .unknown), none, false⟩

def lateAssignment (n : Int) : Item :=
  .expression (.binary .assign (.ident "x" .unknown) (.literal (.int n) .unknown) .unknown)

/-- Both branches assign to the variable, so all paths do; no path moves it. -/
theorem merged_branches_exact_both_assign :
    let p := (⟨[], {}⟩ : Point).past (checkItem {} lateVariable none)
    let items := [.ifElse .unknown (.literal (.bool true) .unknown) [lateAssignment 1]
      (some [lateAssignment 2])]
    p.store.ledger.isTracked 0 = true ∧ p.store.ledger.isInitialized 0 = false ∧
      (∀ evs l, (bodyCourse {} p items).Path evs l → .accessed 0 .write ∈ evs) ∧
      ¬ ∃ evs l, (bodyCourse {} p items).Path evs l ∧ .accessed 0 .move ∈ evs := by
  have hlet : Issues .any {} (checkItem {} lateVariable none) fun _ _ => True :=
    issues_letVar Store.good_empty {} (LetDecl.placed_any _) (by simp) fun _ => rfl
  have hassign : Operator.assign ∈ Operator.binary := by decide
  have hexact := @merged_branches_exact
    [.ifElse .unknown (.literal (.bool true) .unknown) [lateAssignment 1]
      (some [lateAssignment 2])] {}
    ((⟨[], {}⟩ : Point).past (checkItem {} lateVariable none)) 0 (by simp [lateAssignment])
    (by simp [lateAssignment, hassign]) (hlet.good []) (by simp [Setting.Holds]) (by decide +kernel)
  refine ⟨by decide +kernel, by decide +kernel, ?_, ?_⟩
  · exact (hexact.1.mp (by decide +kernel)).resolve_left (by decide +kernel)
  · exact fun hpath => absurd (hexact.2.mpr (.inr hpath)) (by decide +kernel)

end Analysis

end UnitCheck
