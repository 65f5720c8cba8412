import UnitCheck.Proofs.Checking.Stores

/-!
# Paths through a body

A body does something to its variables: lists of events, put together by branches, loops and jumps.
This is its `Course`, and it can be gone through in two ways.

* `Course.Path` — a run takes one branch, goes round a loop any number of times, and is cut by
  jumps.
* `Course.after` — a checker goes through everything once. Branches start from what was known before
  them and are joined, a round of a loop is checked once, and jumps are not followed.

What the checker knows covers what is the case on each path (`Course.Path.lands`), so that accesses
that it grants are allowed there, if the course is `Course.Steady`: a round of a loop must leave the
variables from outside it as they were, and so must a declaration that is checked on the spot. The
checker does not see to this.
-/

namespace UnitCheck

open List Option

variable {evs evs' : List VarEvent} {i : Nat} {kind : AccessKind}

/-- What is known of variables. -/
abbrev View := Nat → Option Status

namespace Status

/-- What is known of a variable that is in the status `st'`: if it is known to have a value, it has
one, and if it was moved, that is known. -/
structure Covers (st st' : Status) : Prop where
  initialized : st.initialized = true → st'.initialized = true
  moved : st'.moved = true → st.moved = true

/-- Nothing is undone. -/
structure Grows (st st' : Status) : Prop where
  initialized : st.initialized = true → st'.initialized = true
  moved : st.moved = true → st'.moved = true

/-- After either of two branches. -/
def join (st st' : Status) : Status where
  initialized := st.initialized && st'.initialized
  moved := st.moved || st'.moved

section

variable {st st' st'' : Status}

theorem join_comm (st st' : Status) : st.join st' = st'.join st := by
  simp [join, Bool.and_comm, Bool.or_comm]

theorem Covers.refl (st : Status) : st.Covers st := ⟨id, id⟩

theorem Grows.refl (st : Status) : st.Grows st := ⟨id, id⟩

theorem Grows.trans (h : st.Grows st') (h' : st'.Grows st'') : st.Grows st'' :=
  ⟨h'.initialized ∘ h.initialized, h'.moved ∘ h.moved⟩

theorem grows_after (st : Status) (kind : AccessKind) : st.Grows (st.after kind) := by
  constructor <;> intro h <;> simp [after, h]

theorem Covers.allows (h : st.Covers st') (ha : st.Allows kind) : st'.Allows kind := by
  refine ⟨?_, ha.2.imp id h.initialized⟩
  rw [← Bool.not_eq_true]
  intro hm
  exact Bool.false_ne_true (ha.1.symm.trans (h.moved hm))

theorem Covers.after (h : st.Covers st') (kind : AccessKind) :
    (st.after kind).Covers (st'.after kind) := by
  constructor
  · intro hi
    rcases Bool.or_eq_true_iff.mp hi with hi | hi
    · exact Bool.or_eq_true_iff.mpr (.inl (h.initialized hi))
    · exact Bool.or_eq_true_iff.mpr (.inr hi)
  · intro hm
    rcases Bool.or_eq_true_iff.mp hm with hm | hm
    · exact Bool.or_eq_true_iff.mpr (.inl (h.moved hm))
    · exact Bool.or_eq_true_iff.mpr (.inr hm)

end

end Status

namespace View

variable {σ τ : View} {st : Status} {ends : View}

/-! ## Events -/

def step (σ : View) : VarEvent → View
  | .declared i initialized => Function.update σ i (some ⟨initialized, false⟩)
  | .accessed i kind => Function.update σ i ((σ i).map (·.after kind))

/-- What is known after events, first to last. -/
def after (σ : View) (evs : List VarEvent) : View := evs.foldl step σ

/-- An access to a variable in a status that allows it, or a declaration. -/
def AllowsEvent (σ : View) : VarEvent → Prop
  | .declared _ _ => True
  | .accessed i kind => ∃ st, σ i = some st ∧ st.Allows kind

/-- Each access among the events is allowed by the status that the events before it leave. -/
def Allows (σ : View) : List VarEvent → Prop
  | [] => True
  | e :: evs => σ.AllowsEvent e ∧ Allows (σ.step e) evs

/-- The events are allowed, and only new variables are declared. -/
def Grants (σ : View) : List VarEvent → Prop
  | [] => True
  | e :: evs => (σ.AllowsEvent e ∧ ∀ i initialized, e = .declared i initialized → σ i = none) ∧
      Grants (σ.step e) evs

theorem after_append (σ : View) (evs evs' : List VarEvent) :
    after σ (evs ++ evs') = after (after σ evs) evs' :=
  foldl_append

theorem allows_append : Allows σ (evs ++ evs') ↔ Allows σ evs ∧ Allows (after σ evs) evs' := by
  induction evs generalizing σ with
  | nil => exact ⟨fun h => ⟨trivial, h⟩, And.right⟩
  | cons e evs ih =>
    show _ ∧ Allows _ (evs ++ evs') ↔ _
    rw [ih, ← and_assoc]
    rfl

theorem grants_append : Grants σ (evs ++ evs') ↔ Grants σ evs ∧ Grants (after σ evs) evs' := by
  induction evs generalizing σ with
  | nil => exact ⟨fun h => ⟨trivial, h⟩, And.right⟩
  | cons e evs ih =>
    show _ ∧ Grants _ (evs ++ evs') ↔ _
    rw [ih, ← and_assoc]
    rfl

/-- The status in which an access finds its variable. -/
theorem Allows.at_access {before behind : List VarEvent}
    (h : Allows σ (before ++ .accessed i kind :: behind)) :
    ∃ st, after σ before i = some st ∧ st.Allows kind :=
  (allows_append.mp h).2.1

/-! ## Knowing and being -/

/-- The variables of `σ` are there in `p`, and what `σ` says of them covers it. -/
def Covers (σ p : View) : Prop := ∀ i st, σ i = some st → ∃ st', p i = some st' ∧ st.Covers st'

/-- The variables of `σ` are there in `σ'`, and nothing that happened to them is undone. -/
def Grows (σ σ' : View) : Prop := ∀ i st, σ i = some st → ∃ st', σ' i = some st' ∧ st.Grows st'

section

variable {σ σ' σ'' p : View}

theorem Covers.refl (σ : View) : Covers σ σ := fun _ st h => ⟨st, h, .refl st⟩

theorem Grows.refl (σ : View) : Grows σ σ := fun _ st h => ⟨st, h, .refl st⟩

theorem Grows.trans (h : Grows σ σ') (h' : Grows σ' σ'') : Grows σ σ'' := by
  intro i st hst
  obtain ⟨st', hst', hg⟩ := h i st hst
  obtain ⟨st'', hst'', hg'⟩ := h' i st' hst'
  exact ⟨st'', hst'', hg.trans hg'⟩

/-- A variable is declared on both sides. -/
theorem Covers.declared (h : Covers σ p) (i : Nat) (initialized : Bool) :
    Covers (σ.step (.declared i initialized)) (p.step (.declared i initialized)) := by
  intro j st hst
  simp only [step, Function.update_apply] at hst ⊢
  split at hst
  · obtain rfl := some.inj hst
    rename_i hj
    exact ⟨_, if_pos hj, .refl _⟩
  · rename_i hj
    rw [if_neg hj]
    exact h j st hst

theorem Covers.accessed (h : Covers σ p) (hallow : σ.AllowsEvent (.accessed i kind)) :
    p.AllowsEvent (.accessed i kind) ∧ Covers (σ.step (.accessed i kind))
      (p.step (.accessed i kind)) := by
  obtain ⟨st, hst, ha⟩ := hallow
  obtain ⟨st', hst', hc⟩ := h i st hst
  refine ⟨⟨st', hst', hc.allows ha⟩, ?_⟩
  intro j u hu
  simp only [step, Function.update_apply, hst, hst', map_some] at hu ⊢
  split at hu
  · obtain rfl := some.inj hu
    rename_i hj
    exact ⟨_, if_pos hj, hc.after kind⟩
  · rename_i hj
    rw [if_neg hj]
    exact h j u hu

/-- Events that are granted are allowed wherever that is covered. -/
theorem Covers.granted (h : Covers σ p) (hg : Grants σ evs) :
    Allows p evs ∧ Covers (after σ evs) (after p evs) := by
  induction evs generalizing σ p with
  | nil => exact ⟨trivial, h⟩
  | cons e evs ih =>
    obtain ⟨⟨hallow, -⟩, hrest⟩ := hg
    cases e with
    | declared i initialized =>
      obtain ⟨hallows, hcovers⟩ := ih (h.declared i initialized) hrest
      exact ⟨⟨trivial, hallows⟩, hcovers⟩
    | accessed i kind =>
      obtain ⟨hfirst, hstep⟩ := h.accessed hallow
      obtain ⟨hallows, hcovers⟩ := ih hstep hrest
      exact ⟨⟨hfirst, hallows⟩, hcovers⟩

theorem grows_declared (hnew : σ i = none) (initialized : Bool) :
    Grows σ (σ.step (.declared i initialized)) := by
  intro j st hst
  have hj : j ≠ i := fun heq => by rw [heq, hnew] at hst; cases hst
  exact ⟨st, by rw [step, Function.update_of_ne hj, hst], .refl st⟩

theorem grows_accessed (σ : View) (i : Nat) (kind : AccessKind) :
    Grows σ (σ.step (.accessed i kind)) := by
  intro j st hst
  by_cases hj : j = i
  · subst hj
    exact ⟨st.after kind, by rw [step, Function.update_self, hst]; rfl, st.grows_after kind⟩
  · exact ⟨st, by rw [step, Function.update_of_ne hj, hst], .refl st⟩

theorem Grants.grows (hg : Grants σ evs) : Grows σ (after σ evs) := by
  induction evs generalizing σ with
  | nil => exact .refl σ
  | cons e evs ih =>
    obtain ⟨⟨-, hnew⟩, hrest⟩ := hg
    refine Grows.trans ?_ (ih hrest)
    cases e with
    | declared i initialized => exact grows_declared (hnew i initialized rfl) initialized
    | accessed i kind => exact grows_accessed σ i kind

end

/-! ## Variables that are declared -/

/-- The events declare variables that are not in view. -/
def Declares (σ : View) (evs : List VarEvent) : Prop :=
  ∀ e ∈ evs, ∃ i initialized, e = .declared i initialized ∧ σ i = none

theorem covers_declarations {p : View} (h : Covers σ p)
    (hevs : ∀ e ∈ evs, ∃ i initialized, e = VarEvent.declared i initialized) :
    Allows p evs ∧ Covers (after σ evs) (after p evs) := by
  induction evs generalizing σ p with
  | nil => exact ⟨trivial, h⟩
  | cons e evs ih =>
    rw [forall_mem_cons] at hevs
    obtain ⟨⟨i, initialized, rfl⟩, hevs⟩ := hevs
    obtain ⟨hallows, hcovers⟩ := ih (h.declared i initialized) hevs
    exact ⟨⟨trivial, hallows⟩, hcovers⟩

/-- What was in view is as it was. -/
theorem Declares.after_eq (h : Declares σ evs) (hst : σ i = some st) : after σ evs i = some st := by
  have hkept : ∀ {evs : List VarEvent} {τ : View}, Declares σ evs → τ i = some st →
      after τ evs i = some st := by
    intro evs
    induction evs with
    | nil => exact fun _ h => h
    | cons e evs ih =>
      intro τ hevs hτ
      rw [Declares, forall_mem_cons] at hevs
      obtain ⟨⟨j, initialized, rfl, hnew⟩, hevs⟩ := hevs
      have hi : i ≠ j := fun heq => by rw [← heq, hst] at hnew; cases hnew
      exact ih hevs (by rw [step, Function.update_of_ne hi, hτ])
  exact hkept h hst

/-- What is not declared does not come into view. -/
theorem Declares.after_eq_none (h : Declares σ evs) (hσ : σ i = none)
    (hi : ∀ initialized, VarEvent.declared i initialized ∉ evs) : after σ evs i = none := by
  have hkept : ∀ {evs : List VarEvent} {τ : View}, Declares σ evs →
      (∀ initialized, VarEvent.declared i initialized ∉ evs) → τ i = none →
      after τ evs i = none := by
    intro evs
    induction evs with
    | nil => exact fun _ _ h => h
    | cons e evs ih =>
      intro τ hevs hi hτ
      rw [Declares, forall_mem_cons] at hevs
      obtain ⟨⟨j, initialized, rfl, -⟩, hevs⟩ := hevs
      have hij : i ≠ j := fun heq => hi initialized (heq ▸ mem_cons_self)
      refine ih hevs (fun init hmem => hi init (mem_cons_of_mem _ hmem)) ?_
      rw [step, Function.update_of_ne hij, hτ]
  exact hkept h hi hσ

/-! ## Scopes and branches -/

/-- What a scope leaves of what is known at its end: the variables from outside it. -/
def within (σ ends : View) : View := fun i => (σ i).bind fun _ => ends i

/-- After either of two branches. -/
def join (σ τ : View) : View := fun i => (σ i).bind fun st => (τ i).map st.join

theorem within_eq_some : within σ ends i = some st ↔ (∃ st', σ i = some st') ∧
      ends i = some st := by
  rw [within, bind_eq_some_iff]
  exact ⟨fun ⟨st', h, h'⟩ => ⟨⟨st', h⟩, h'⟩, fun ⟨⟨st', h⟩, h'⟩ => ⟨st', h, h'⟩⟩

theorem join_eq_some : join σ τ i = some st ↔ ∃ a b, σ i = some a ∧ τ i = some b ∧
      st = a.join b := by
  rw [join, bind_eq_some_iff]
  constructor
  · rintro ⟨a, ha, h⟩
    obtain ⟨b, hb, rfl⟩ := map_eq_some_iff.mp h
    exact ⟨a, b, ha, hb, rfl⟩
  · rintro ⟨a, b, ha, hb, rfl⟩
    exact ⟨a, ha, by rw [hb]; rfl⟩

theorem join_comm (σ τ : View) : join σ τ = join τ σ := by
  funext i
  refine Option.ext fun st => ?_
  rw [join_eq_some, join_eq_some]
  constructor <;> rintro ⟨a, b, ha, hb, rfl⟩ <;> exact ⟨b, a, hb, ha, a.join_comm b⟩

theorem join_assoc (σ τ υ : View) : join (join σ τ) υ = join σ (join τ υ) := by
  funext i
  unfold join
  cases σ i with
  | none => rfl
  | some a =>
    cases τ i with
    | none => rfl
    | some b =>
      cases υ i with
      | none => rfl
      | some c => simp [Status.join, Bool.and_assoc, Bool.or_assoc]

theorem within_eq_none (ends : View) (h : σ i = none) : within σ ends i = none := by
  rw [within, h]
  rfl

theorem join_eq_none_iff : join σ τ i = none ↔ σ i = none ∨ τ i = none := by
  unfold join
  cases σ i <;> cases τ i <;> simp

/-- Where nothing new has come into view, leaving a scope changes nothing. -/
theorem within_eq_self (h : ∀ i, σ i = none → ends i = none) : within σ ends = ends := by
  funext i
  cases hσ : σ i with
  | none => rw [within_eq_none ends hσ, h i hσ]
  | some st => rw [within, hσ]; rfl

theorem Grows.eq_none {σ' : View} (h : Grows σ σ') (hi : σ' i = none) : σ i = none := by
  cases hσ : σ i with
  | none => rfl
  | some st =>
    obtain ⟨st', hst', -⟩ := h i st hσ
    rw [hi] at hst'
    cases hst'

theorem Grows.within (h : Grows σ ends) : Grows σ (within σ ends) := by
  intro i st hst
  obtain ⟨st', hst', hg⟩ := h i st hst
  exact ⟨st', within_eq_some.mpr ⟨⟨st, hst⟩, hst'⟩, hg⟩

theorem Grows.join {τ' : View} (h : Grows σ τ) (h' : Grows σ τ') : Grows σ (join τ τ') := by
  intro i st hst
  obtain ⟨a, ha, hg⟩ := h i st hst
  obtain ⟨b, hb, hg'⟩ := h' i st hst
  refine ⟨a.join b, join_eq_some.mpr ⟨a, b, ha, hb, rfl⟩, fun hi => ?_, fun hm => ?_⟩
  · exact Bool.and_eq_true_iff.mpr ⟨hg.initialized hi, hg'.initialized hi⟩
  · exact Bool.or_eq_true_iff.mpr (.inl (hg.moved hm))

end View

/-! ## Courses -/

/-- How a path leaves a statement. -/
inductive Leaving where
  | onward
  | broke
  | continued
  | returned
  deriving Repr, DecidableEq, Inhabited

inductive Course where
  /-- Events one after the other, first to last. -/
  | events (evs : List VarEvent)
  | seq (first second : Course)
  /-- A scope of its own. -/
  | block (body : Course)
  /-- One of two scopes. -/
  | either (first second : Course)
  /-- The head, and any number of rounds of body and head. The rounds are `joined` if the checker
  reckons with there being none. -/
  | rounds (joined : Bool) (head : List VarEvent) (body : Course)
  | leave (how : Leaving)
  /-- Something is declared that does not run here but is checked here. Variables may come with it.
  All that is kept of the check is what it has `left` of the variables that are `seen`
  afterwards. -/
  | declaration (evs : List VarEvent) (seen : Nat → Prop) (left : View)

namespace Course

open View

/-- What a run through a course does, and how it leaves. -/
inductive Path : Course → List VarEvent → Leaving → Prop where
  | events (evs : List VarEvent) : Path (.events evs) evs .onward
  | next {a b : Course} {evs evs' : List VarEvent} {l : Leaving} (first : Path a evs .onward)
      (second : Path b evs' l) : Path (.seq a b) (evs ++ evs') l
  | cut {a : Course} {evs : List VarEvent} {l : Leaving} (b : Course) (first : Path a evs l)
      (hl : l ≠ .onward) : Path (.seq a b) evs l
  | block {body : Course} {evs : List VarEvent} {l : Leaving} (inner : Path body evs l) :
      Path (.block body) evs l
  | first {a : Course} {evs : List VarEvent} {l : Leaving} (b : Course) (taken : Path a evs l) :
      Path (.either a b) evs l
  | second {b : Course} {evs : List VarEvent} {l : Leaving} (a : Course) (taken : Path b evs l) :
      Path (.either a b) evs l
  | done (joined : Bool) (head : List VarEvent) (body : Course) :
    Path (.rounds joined head body) head .onward
  | again {joined : Bool} {head : List VarEvent} {body : Course} {evs evs' : List VarEvent}
      {l l' : Leaving} (round : Path body evs l) (hl : l = .onward ∨ l = .continued)
      (more : Path (.rounds joined head body) evs' l') :
      Path (.rounds joined head body) (head ++ evs ++ evs') l'
  | broke {joined : Bool} {head : List VarEvent} {body : Course} {evs : List VarEvent}
      (round : Path body evs .broke) : Path (.rounds joined head body) (head ++ evs) .onward
  | returned {joined : Bool} {head : List VarEvent} {body : Course} {evs : List VarEvent}
      (round : Path body evs .returned) : Path (.rounds joined head body) (head ++ evs) .returned
  | leave (how : Leaving) : Path (.leave how) [] how
  | declaration (evs : List VarEvent) (seen : Nat → Prop) (left : View) :
      Path (.declaration evs seen left) evs .onward

/-- What a checker knows after it has gone through a course. -/
def after : Course → View → View
  | .events evs, σ => View.after σ evs
  | .seq a b, σ => b.after (a.after σ)
  | .block body, σ => View.within σ (body.after σ)
  | .either a b, σ => View.join (View.within σ (a.after σ)) (View.within σ (b.after σ))
  | .rounds joined head body, σ =>
    let τ := View.after σ head
    let ends := View.within τ (body.after τ)
    if joined then View.join ends τ else ends
  | .leave _, σ => σ
  | .declaration evs _ _, σ => View.after σ evs

/-- Each event is granted by what the checker knows when it comes to it. -/
def Granted : Course → View → Prop
  | .events evs, σ => Grants σ evs
  | .seq a b, σ => a.Granted σ ∧ b.Granted (a.after σ)
  | .block body, σ => body.Granted σ
  | .either a b, σ => a.Granted σ ∧ b.Granted σ
  | .rounds _ head body, σ => Grants σ head ∧ body.Granted (View.after σ head)
  | .leave _, _ => True
  | .declaration .., _ => True

/-- A round does not move what was there before it; one that the checker takes to run does not give
values to it either. A declaration does nothing but declare new variables. -/
def Steady : Course → View → Prop
  | .events _, _ => True
  | .seq a b, σ => a.Steady σ ∧ b.Steady (a.after σ)
  | .block body, σ => body.Steady σ
  | .either a b, σ => a.Steady σ ∧ b.Steady σ
  | .rounds joined head body, σ =>
    let τ := View.after σ head
    body.Steady τ ∧
      (∀ i st st', σ i = some st → body.after τ i = some st' → st'.moved = true → st.moved = true) ∧
      (joined = false → ∀ i st st', τ i = some st → body.after τ i = some st' →
        st'.initialized = true → st.initialized = true)
  | .leave _, _ => True
  | .declaration evs seen left, σ => Declares σ evs ∧ ∀ i, seen i → left i = View.after σ evs i

/-- Whatever happens to a variable in view is not undone. -/
theorem grows : ∀ (f : Course) {σ : View}, f.Granted σ → f.Steady σ → View.Grows σ (f.after σ)
  | .events _, _, hg, _ => hg.grows
  | .seq a b, _, hg, hs => (a.grows hg.1 hs.1).trans (b.grows hg.2 hs.2)
  | .block body, _, hg, hs => (body.grows hg hs).within
  | .either a b, _, hg, hs => (a.grows hg.1 hs.1).within.join (b.grows hg.2 hs.2).within
  | .rounds joined head body, σ, hg, hs => by
    have hhead := hg.1.grows
    have hbody := (body.grows hg.2 hs.1).within
    rw [after]
    split
    · exact (hhead.trans hbody).join hhead
    · exact hhead.trans hbody
  | .leave _, σ, _, _ => .refl σ
  | .declaration evs _ _, σ, _, hs => fun _ st hst => ⟨st, hs.1.after_eq hst, .refl st⟩

/-! ## Soundness -/

/-- Where a path may come to from what is covered by `σ`, at a place where the checker, further on,
knows `ends`. -/
def Within (σ ends p : View) : Prop :=
  ∀ i st, σ i = some st → ∃ st' st'', ends i = some st' ∧ p i = some st'' ∧
    (st.initialized = true → st''.initialized = true) ∧ (st''.moved = true → st'.moved = true)

/-- How a path may end. -/
structure Lands (σ ends p : View) (l : Leaving) : Prop where
  within : Within σ ends p
  onward : l = .onward → View.Covers ends p

section

variable {σ ends p : View} {l : Leaving}

theorem within_of_covers (hg : View.Grows σ ends) (hc : View.Covers ends p) : Within σ ends p := by
  intro i st hst
  obtain ⟨st', hst', hgrow⟩ := hg i st hst
  obtain ⟨st'', hst'', hcover⟩ := hc i st' hst'
  exact ⟨st', st'', hst', hst'', hcover.initialized ∘ hgrow.initialized, hcover.moved⟩

/-- Where a path starts, nothing has happened yet. -/
theorem within_start (hg : View.Grows σ ends) (hc : View.Covers σ p) : Within σ ends p := by
  intro i st hst
  obtain ⟨st', hst', hgrow⟩ := hg i st hst
  obtain ⟨st'', hst'', hcover⟩ := hc i st hst
  exact ⟨st', st'', hst', hst'', hcover.initialized, hgrow.moved ∘ hcover.moved⟩

theorem Lands.of_covers (hg : View.Grows σ ends) (hc : View.Covers ends p) (l : Leaving) :
    Lands σ ends p l :=
  ⟨within_of_covers hg hc, fun _ => hc⟩

theorem Lands.scope (h : Lands σ ends p l) : Lands σ (View.within σ ends) p l where
  within := by
    intro i st hst
    obtain ⟨st', st'', hst', hrest⟩ := h.within i st hst
    exact ⟨st', st'', within_eq_some.mpr ⟨⟨st, hst⟩, hst'⟩, hrest⟩
  onward hl := by
    intro i st hst
    exact h.onward hl i st (within_eq_some.mp hst).2

/-- A path that may end there may also end where its end is joined with another one. -/
theorem Lands.join {other : View} (h : Lands σ ends p l) (ho : View.Grows σ other) :
    Lands σ (View.join ends other) p l where
  within := by
    intro i st hst
    obtain ⟨a, st'', ha, hp, hinit, hmoved⟩ := h.within i st hst
    obtain ⟨b, hb, -⟩ := ho i st hst
    exact ⟨a.join b, st'', join_eq_some.mpr ⟨a, b, ha, hb, rfl⟩, hp, hinit,
      fun hm => Bool.or_eq_true_iff.mpr (.inl (hmoved hm))⟩
  onward hl := by
    intro i st hst
    obtain ⟨a, b, ha, -, rfl⟩ := join_eq_some.mp hst
    obtain ⟨st'', hp, hc⟩ := h.onward hl i a ha
    refine ⟨st'', hp, fun hi => hc.initialized (Bool.and_eq_true_iff.mp hi).1, fun hm => ?_⟩
    exact Bool.or_eq_true_iff.mpr (.inl (hc.moved hm))

end

section

variable {joined : Bool} {head : List VarEvent} {body : Course} {σ p : View}

/-- Wherever a path is after some rounds, what the checker knows of the loop covers it. -/
theorem rounds_covers (hs : (Course.rounds joined head body).Steady σ)
    (hp : Within (View.after σ head) (body.after (View.after σ head)) p) :
    View.Covers ((Course.rounds joined head body).after σ) p := by
  obtain ⟨-, -, hinit⟩ := hs
  intro i st hst
  rw [after] at hst
  split at hst
  · obtain ⟨a, b, ha, hb, rfl⟩ := join_eq_some.mp hst
    obtain ⟨st', st'', hst', hp', hi, hm⟩ := hp i b hb
    obtain rfl := mem_unique (within_eq_some.mp ha).2 hst'
    refine ⟨st'', hp', fun h => hi (Bool.and_eq_true_iff.mp h).2, fun h => ?_⟩
    exact Bool.or_eq_true_iff.mpr (.inl (hm h))
  next hj =>
    obtain ⟨⟨b, hb⟩, ha⟩ := within_eq_some.mp hst
    obtain ⟨st', st'', hst', hp', hi, hm⟩ := hp i b hb
    obtain rfl := mem_unique ha hst'
    exact ⟨st'', hp', fun h => hi (hinit (Bool.eq_false_iff.mpr hj) i b _ hb ha h), hm⟩

/-- After a round everything is as before it, as far as the checker knows. -/
theorem round_covers (hg : (Course.rounds joined head body).Granted σ)
    (hs : (Course.rounds joined head body).Steady σ)
    (hp : Within (View.after σ head) (body.after (View.after σ head)) p) : View.Covers σ p := by
  obtain ⟨-, hmoved, -⟩ := hs
  intro i st hst
  obtain ⟨st₁, hst₁, hgrow⟩ := hg.1.grows i st hst
  obtain ⟨st', st'', hst', hp', hi, hm⟩ := hp i st₁ hst₁
  exact ⟨st'', hp', hi ∘ hgrow.initialized, fun h => hmoved i st st' hst hst' (hm h)⟩

end

/-- Along each path through a steady course whose events are granted, the events are allowed. -/
theorem Path.lands {f : Course} {l : Leaving} (h : f.Path evs l) {σ p : View} (hg : f.Granted σ)
    (hs : f.Steady σ) (hc : View.Covers σ p) :
    View.Allows p evs ∧ Lands σ (f.after σ) (View.after p evs) l := by
  -- the induction is on the path; `σ` is what the checker knows where the path is at `p`
  induction h generalizing σ p with
  | events evs =>
    obtain ⟨hallows, hcovers⟩ := hc.granted hg
    exact ⟨hallows, .of_covers hg.grows hcovers _⟩
  | @next a b evs evs' l _ _ iha ihb =>
    obtain ⟨hallows, hlands⟩ := iha hg.1 hs.1 hc
    obtain ⟨hallows', hlands'⟩ := ihb hg.2 hs.2 (hlands.onward rfl)
    rw [View.after_append]
    refine ⟨allows_append.mpr ⟨hallows, hallows'⟩, ?_, hlands'.onward⟩
    intro i st hst
    obtain ⟨st₁, hst₁, hgrow⟩ := a.grows hg.1 hs.1 i st hst
    obtain ⟨st', st'', hst', hp, hi, hm⟩ := hlands'.within i st₁ hst₁
    exact ⟨st', st'', hst', hp, hi ∘ hgrow.initialized, hm⟩
  | @cut a evs l b _ hl iha =>
    obtain ⟨hallows, hlands⟩ := iha hg.1 hs.1 hc
    refine ⟨hallows, ?_, fun h => absurd h hl⟩
    intro i st hst
    obtain ⟨st', st'', hst', hp, hi, hm⟩ := hlands.within i st hst
    obtain ⟨st₂, hst₂, hgrow⟩ := b.grows hg.2 hs.2 i st' hst'
    exact ⟨st₂, st'', hst₂, hp, hi, hgrow.moved ∘ hm⟩
  | block _ ih =>
    obtain ⟨hallows, hlands⟩ := ih hg hs hc
    exact ⟨hallows, hlands.scope⟩
  | first b _ ih =>
    obtain ⟨hallows, hlands⟩ := ih hg.1 hs.1 hc
    exact ⟨hallows, hlands.scope.join (b.grows hg.2 hs.2).within⟩
  | second a _ ih =>
    obtain ⟨hallows, hlands⟩ := ih hg.2 hs.2 hc
    rw [after, View.join_comm]
    exact ⟨hallows, hlands.scope.join (a.grows hg.1 hs.1).within⟩
  | done joined head body =>
    obtain ⟨hallows, hcovers⟩ := hc.granted hg.1
    have hwithin := within_start (body.grows hg.2 hs.1) hcovers
    exact ⟨hallows, .of_covers (grows _ hg hs) (rounds_covers hs hwithin) _⟩
  | again _ _ _ ihround ihmore =>
    obtain ⟨hhead, hcovers⟩ := hc.granted hg.1
    obtain ⟨hround, hlands⟩ := ihround hg.2 hs.1 hcovers
    obtain ⟨hmore, hlands'⟩ := ihmore hg hs (round_covers hg hs hlands.within)
    rw [View.after_append, View.after_append, allows_append, allows_append, View.after_append]
    exact ⟨⟨⟨hhead, hround⟩, hmore⟩, hlands'⟩
  | broke _ ih | returned _ ih =>
    obtain ⟨hhead, hcovers⟩ := hc.granted hg.1
    obtain ⟨hround, hlands⟩ := ih hg.2 hs.1 hcovers
    rw [View.after_append]
    refine ⟨allows_append.mpr ⟨hhead, hround⟩, ?_⟩
    exact .of_covers (grows _ hg hs) (rounds_covers hs hlands.within) _
  | leave how => exact ⟨trivial, .of_covers (.refl σ) hc how⟩
  | declaration evs seen left =>
    have hdecl : ∀ e ∈ evs, ∃ i initialized, e = VarEvent.declared i initialized := fun e he => by
      obtain ⟨i, initialized, heq, -⟩ := hs.1 e he
      exact ⟨i, initialized, heq⟩
    obtain ⟨hallows, hcovers⟩ := covers_declarations hc hdecl
    exact ⟨hallows, .of_covers (Course.grows (.declaration evs seen left) hg hs) hcovers _⟩

end Course

end UnitCheck
