import UnitCheck.Analysis.Check
import UnitCheck.Proofs.Checking.Statements

/-!
# Computations that report

`EndsUnder A P s x Q` — run on the store `s` with any log, the computation `x` adds diagnostics
about the unit to the log and ends in a good store, in the scope in which it began, with a result
that satisfies `Q`; records that it leaves behind were made under scopes that satisfy `P`. If `s` is
orderly for the sites `A`, then the diagnostics stand at places that these cover (`Sited`), and `x`
leaves the store orderly.

`ReportsUnder` — a computation that also keeps what is known of variables (`Store.Keeps`), which a
branch does not that is gone back from. `Reports` is the case of the statements of a scope, which
leave records under this scope only.

`IssuesUnder` — a computation that also accounts for the events on the trail: it goes straight on,
without branches that it would have to go back from.

What runs in a scope of its own leaves no record behind (`ReportsUnder.scoped`), since leaving a
scope releases it. From this the ways of entering scopes get their lemmas: `inScope_reports` for new
scopes and `within_reports` for those that an earlier pass has opened. Entering and leaving are two
steps of which neither alone leaves a store in its scope; `Store.Enters` says what the first of them
does to an orderly store, and `Enters.left` that the second undoes it.
-/

namespace UnitCheck

open Checking List

namespace Store

variable {p scope : Nat} {ds : List Diagnostic}

/-- In another scope. -/
def inside (s : Store) (scope : Nat) : Store :=
  { s with table := { s.table with current := scope } }

/-- Once the current scope has been left for the scope `outer`. -/
def left (s : Store) (outer : Nat) : Store :=
  { s with
    table := { s.table with current := outer }
    ledger := s.ledger.release s.table.current }

/-- In a scope that has just been opened. -/
def opened (s : Store) (kind : ScopeKind) : Store := { s with table := s.table.entered kind }

/-- What statements of the current scope may do. -/
abbrev After (s s' : Store) : Prop := s.Reaches (fun scope => scope = s.table.current) s'

theorem After.trans {s s' s'' : Store} (h : s.After s') (h' : s'.After s'') : s.After s'' :=
  Reaches.trans h (h'.mono fun scope heq => by rw [heq, h.current])

/-- The store `s₁` is `s` in a scope below the current one. -/
structure Descends (s s₁ : Store) : Prop where
  good : s₁.Good
  registry : s₁.registry = s.registry
  ledger : s₁.ledger = s.ledger
  trail : s₁.trail = s.trail
  table : s.table.Grows s₁.table
  parent : s₁.table.Parent s₁.table.current s.table.current

theorem descends_inside {s : Store} (h : s.Good) (hp : s.table.Parent scope s.table.current) :
    s.Descends (s.inside scope) where
  good := by
    obtain ⟨y, hy, -⟩ := hp
    have hlt : scope < s.table.scopes.size := lt_of_get? hy
    exact h.withTable (h.table.goto hlt) (s.table.grows_goto scope) h.typed
  registry := rfl
  ledger := rfl
  trail := rfl
  table := s.table.grows_goto scope
  parent := hp

theorem descends_opened {s : Store} (h : s.Good) (kind : ScopeKind) :
    s.Descends (s.opened kind) where
  good := h.withTable (h.table.entered kind) (s.table.grows_entered kind) h.typed
  registry := rfl
  ledger := rfl
  trail := rfl
  table := s.table.grows_entered kind
  parent := ⟨_, s.table.entered_scope kind, rfl⟩

section

variable {s s₁ s₂ : Store}

section

variable (hd : s.Descends s₁) {P : Int → Prop}
include hd

/-- The scope below can still be left for the one above. -/
theorem Descends.parent_after (ha : s₁.After s₂) :
    s₂.table.Parent s₂.table.current s.table.current := by
  rw [ha.current]
  exact ha.table.parent hd.parent

theorem Descends.alive_ne {scope : Int} (hs : s.Alive scope) : scope ≠ s₁.table.current := by
  intro heq
  have hin := hd.table.inside (hs.2 _ heq)
  exact absurd (hd.good.table.parent_lt hd.parent) (Nat.not_lt.mpr (hd.good.table.inside_le hin))

theorem Descends.declared_iff {id : Int} : s₁.Declared s₂ id ↔ s.Declared s₂ id := by
  rw [Declared, Declared, hd.trail]

theorem Descends.left_good (h₂ : s₂.Good) (ha : s₁.After s₂) : (s₂.left s.table.current).Good := by
  obtain ⟨y, hy, hp⟩ := hd.parent_after ha
  have hlt := h₂.table.parent_lt ⟨y, hy, hp⟩
  have hgoto : { s₂ with table := { s₂.table with current := s.table.current } }.Good :=
    h₂.withTable (h₂.table.goto (hlt.trans h₂.table.current_lt)) (s₂.table.grows_goto _) h₂.typed
  exact hgoto.release s₂.table.current

/-- What happened in a scope that was left is kept, but for its records. -/
theorem Descends.left_reaches (ha : s₁.After s₂) : s.Reaches P (s₂.left s.table.current) where
  registry := hd.registry ▸ ha.registry
  table := hd.table.trans (ha.table.trans (s₂.table.grows_goto _))
  current := rfl
  records := by
    -- records of the scope that is left are released, those of others are allowed by `P`
    have hrecords :
      Ledger.Under (fun scope => scope = s₁.table.current ∨ P scope) s.ledger s₂.ledger := by
      rw [← hd.ledger]
      exact ha.records.mono fun _ heq => .inl heq
    show Ledger.Under P s.ledger (s₂.ledger.release s₂.table.current)
    rw [ha.current]
    exact hrecords.release
  holdings := by
    intro id k hk
    rw [← hd.ledger] at hk
    obtain ⟨k₂, hk₂, hlabel⟩ := ha.holdings hk
    obtain ⟨k', hk', hlabel'⟩ := (s₂.ledger.continues_release s₂.table.current).get? hk₂
    exact ⟨k', hk', fun hno => hlabel'.trans (hlabel (mt hd.declared_iff.mp hno))⟩
  fresh := by
    intro i hi
    have hi : (s₂.ledger.release s₂.table.current).isTracked i = true := hi
    rw [Ledger.isTracked_release] at hi
    -- what is new was declared in the inner scope, and so below the outer one
    rcases ha.fresh hi with hi | ⟨y, hy, hin⟩
    · exact .inl (hd.ledger ▸ hi)
    · exact .inr ⟨y, hy, hin.tail (ha.table.parent hd.parent)⟩
  temporary_le := hd.ledger ▸ ha.temporary_le
  trail := hd.trail ▸ ha.trail
  declared := by
    intro i hi
    obtain ⟨y, hy, hin⟩ := ha.declared (hd.declared_iff.mpr hi)
    exact ⟨y, hy, hin.tail (ha.table.parent hd.parent)⟩

/-- The scopes around the one above are around the one below. -/
theorem Descends.filed (hs : s.Filed) : s₁.Filed := by
  intro id a ha
  rw [hd.ledger] at ha
  obtain ⟨hlt, hin⟩ := hs id a ha
  refine ⟨hd.ledger ▸ hlt, fun n hn => ?_⟩
  exact .head hd.parent (hd.table.inside (hin n hn))

/-- Of what was there before, nothing is missing. -/
theorem Descends.left_keeps (ha : s₁.After s₂)
    (hk : s₁.Keeps (fun scope => scope = s₁.table.current) s₂) :
    s.Keeps P (s₂.left s.table.current) := by
  have hkept : s.Keeps (fun scope => scope = s₁.table.current ∨ P scope) s₂ :=
    (hk.congr (by rw [hd.ledger]) rfl hd.trail.symm rfl hd.filed).mono fun _ => .inl
  refine hkept.released (fun hs id a ha => hd.alive_ne (hs id a ha)) ?_ rfl
  rw [← ha.current]
  rfl

end

end

/-- The store `s₁` is in a scope below the current one of `s`, and nothing untyped is new. -/
structure Enters (A : Sites) (s s₁ : Store) : Prop extends Follows A s s₁ where
  settles : A.settled → s.table.Settles none s₁.table
  parent : s₁.table.Parent s₁.table.current s.table.current

section

variable {A : Sites} {s s₁ s₂ : Store}

theorem Orderly.enters_opened (h : s.Orderly A) (kind : ScopeKind) :
    s.Enters A (s.opened kind) where
  toFollows := (h.entered kind).1
  settles _ := (h.entered kind).2
  parent := ⟨_, s.table.entered_scope kind, rfl⟩

theorem Orderly.enters_inside (h : s.Orderly A) (hp : s.table.Parent scope s.table.current) :
    s.Enters A (s.inside scope) :=
  ⟨(h.goto scope).1, fun _ => (h.goto scope).2, hp⟩

theorem Enters.then (he : s.Enters A s₁) (hc : s₁.Completes A s₂) : s.Enters A s₂ where
  toFollows := he.toFollows.trans hc.toFollows
  settles hs := (he.settles hs).trans he.grows (hc.settles hs) hc.grows
  parent := by
    rw [hc.current]
    exact hc.grows.parent he.parent

theorem Enters.left (he : s.Enters A s₁) : s.Completes A (s₁.left s.table.current) := by
  obtain ⟨hfollows, hsettles⟩ := he.orderly.goto s.table.current
  -- the current scope is set back, and then the ledger forgets the scope that was left
  have hreleased : Completes A (s₁.inside s.table.current) (s₁.left s.table.current) :=
    hfollows.orderly.aside rfl rfl
  have hback := he.toFollows.trans hfollows
  refine ⟨⟨hback.trans hreleased.toFollows, rfl⟩, fun hs => ?_⟩
  exact ((he.settles hs).trans he.grows hsettles hfollows.grows).trans hback.grows
    (hreleased.settles hs)
    hreleased.grows

end

end Store

namespace Analysis

/-- Diagnostics about the unit. Where the store is orderly, they stand at its places. -/
structure Sited (A : Sites) (s : Store) (ds : List Diagnostic) : Prop where
  clean : AllClean .any ds
  covered : s.Orderly A → AllClean A ds

structure EndsUnder {α : Type} (A : Sites) (P : Int → Prop) (s : Store) (x : AnalysisM α)
    (Q : Store → α → Prop) : Prop where
  good : ∀ log, ((x.run log).run s).2.Good
  reaches : ∀ log, s.Reaches P ((x.run log).run s).2
  found : ∀ log, ∃ ds, ((x.run log).run s).1.2 = log ++ ds ∧ Sited A s ds
  completes : ∀ log, s.Orderly A → s.Completes A ((x.run log).run s).2
  result : ∀ log, Q ((x.run log).run s).2 ((x.run log).run s).1.1

structure ReportsUnder {α : Type} (A : Sites) (P : Int → Prop) (s : Store) (x : AnalysisM α)
    (Q : Store → α → Prop) : Prop extends EndsUnder A P s x Q where
  keeps : ∀ log, (∀ scope, P scope → s.Alive scope) → s.Keeps P ((x.run log).run s).2

/-- The case of the statements of a scope. -/
abbrev Reports {α : Type} (A : Sites) (s : Store) (x : AnalysisM α) (Q : Store → α → Prop) : Prop :=
  ReportsUnder A (fun scope => scope = s.table.current) s x Q

/-- Nothing is asked of the result. -/
abbrev RunsUnder {α : Type} (A : Sites) (P : Int → Prop) (s : Store) (x : AnalysisM α) : Prop :=
  ReportsUnder A P s x fun _ _ => True

abbrev Runs {α : Type} (A : Sites) (s : Store) (x : AnalysisM α) : Prop :=
  Reports A s x fun _ _ => True

variable {check : CheckM (List Diagnostic)} {t : Typed}

section

variable {α β : Type} {A : Sites} {P P' : Int → Prop} {s : Store} {Q R : Store → α → Prop}
  {Q' : Store → β → Prop}
  {x : AnalysisM α} {f : α → AnalysisM β} {a : α}

theorem sited_of_clean (h : AllClean A ds) : Sited A s ds :=
  ⟨fun d hd => ⟨(h d hd).code_ne, (h d hd).ne_scopeFault, trivial⟩, fun _ => h⟩

theorem EndsUnder.mono (hx : EndsUnder A P s x Q) (hP : ∀ scope, P scope → P' scope) :
    EndsUnder A P' s x Q :=
  { hx with reaches := fun log => (hx.reaches log).mono hP }

theorem EndsUnder.imp (hx : EndsUnder A P s x Q)
    (hq : ∀ s' a, s'.Good → s.Reaches P s' → Q s' a → R s' a) :
    EndsUnder A P s x R :=
  { hx with result := fun log => hq _ _ (hx.good log) (hx.reaches log) (hx.result log) }

theorem EndsUnder.appends (hx : EndsUnder A P s x Q) (log : List Diagnostic) :
    log <+: ((x.run log).run s).1.2 := by
  obtain ⟨ds, hds, -⟩ := hx.found log
  exact ⟨ds, hds.symm⟩

/-- Reports one after the other: what is found is kept in order. -/
theorem EndsUnder.bind (hx : EndsUnder A P s x Q)
    (hf : ∀ a s', s'.Good → s.Reaches P s' → Q s' a → EndsUnder A P s' (f a) Q') :
    EndsUnder A P s (x >>= f) Q' := by
  have hnext := fun log => hf _ _ (hx.good log) (hx.reaches log) (hx.result log)
  refine ⟨fun log => (hnext log).good _, fun log => ?_, fun log => ?_, fun log ho => ?_,
    fun log => (hnext log).result _⟩
  · exact (hx.reaches log).trans ((hnext log).reaches _)
  · obtain ⟨ds, hds, hclean⟩ := hx.found log
    obtain ⟨ds', hds', hclean'⟩ := (hnext log).found ((x.run log).run s).1.2
    refine ⟨ds ++ ds', by rw [← append_assoc, ← hds]; exact hds',
      hclean.clean.append hclean'.clean, fun ho => ?_⟩
    exact (hclean.covered ho).append (hclean'.covered (hx.completes log ho).orderly)
  · have hc := hx.completes log ho
    exact hc.trans ((hnext log).completes _ hc.orderly)

theorem ReportsUnder.mono (hx : ReportsUnder A P s x Q)
    (hP : ∀ scope, P scope → P' scope) : ReportsUnder A P' s x Q :=
  ⟨hx.toEndsUnder.mono hP,
    fun log halive => (hx.keeps log fun scope hs => halive scope (hP scope hs)).mono hP⟩

/-- What leaves no record behind. -/
theorem ReportsUnder.reports (hx : ReportsUnder A (fun _ => False) s x Q) :
    ReportsUnder A P s x Q :=
  hx.mono fun _ h => h.elim

theorem ReportsUnder.imp (hx : ReportsUnder A P s x Q)
    (hq : ∀ s' a, s'.Good → s.Reaches P s' → Q s' a → R s' a) :
    ReportsUnder A P s x R :=
  ⟨hx.toEndsUnder.imp hq, hx.keeps⟩

/-- What is kept can be told where the computation goes on. -/
theorem ReportsUnder.kept (hx : ReportsUnder A P s x Q)
    (halive : ∀ scope, P scope → s.Alive scope) : EndsUnder A P s x fun s' a =>
      s.Keeps P s' ∧ Q s' a :=
  { hx with result := fun log => ⟨hx.keeps log halive, hx.result log⟩ }

theorem EndsUnder.reports (hx : EndsUnder A P s x fun s' a => s.Keeps P s' ∧ Q s' a) :
    ReportsUnder A P s x Q :=
  ⟨hx.imp fun _ _ _ _ hq => hq.2, fun log _ => (hx.result log).1⟩

theorem reportsUnder_of_eq (h : s.Good) (hds : Sited A s ds)
    (hx : ∀ log, (x.run log).run s = ((a, log ++ ds), s))
    (ha : Q s a) : ReportsUnder A P s x Q := by
  constructor
  · constructor <;> intro log <;> rw [hx log]
    · exact h
    · exact .refl s
    · exact ⟨ds, rfl, hds⟩
    · exact .refl
    · exact ha
  · intro log _
    rw [hx log]
    exact .refl s

theorem ReportsUnder.pure (h : s.Good) (ha : Q s a) : ReportsUnder A P s (Pure.pure a) Q :=
  reportsUnder_of_eq h (sited_of_clean allClean_nil) (fun log => by rw [append_nil]; rfl) ha

theorem ReportsUnder.bind (hx : ReportsUnder A P s x Q)
    (hf : ∀ a s', s'.Good → s.Reaches P s' → Q s' a → ReportsUnder A P s' (f a) Q') :
    ReportsUnder A P s (x >>= f) Q' := by
  refine ⟨hx.toEndsUnder.bind fun a s' h' ha hq => (hf a s' h' ha hq).toEndsUnder,
    fun log halive => ?_⟩
  have hr := hx.reaches log
  have hnext := hf _ _ (hx.good log) hr (hx.result log)
  refine (hx.keeps log halive).trans (hnext.keeps _ fun scope hs => ?_) hr (hnext.reaches _) halive
  exact hr.alive (halive scope hs)

/-- One statement after the other. -/
theorem Reports.bind (hx : Reports A s x Q)
    (hf : ∀ a s', s'.Good → s.After s' → Q s' a → Reports A s' (f a) Q') :
    Reports A s (x >>= f) Q' := by
  refine ReportsUnder.bind hx fun a s' h' ha hq => ?_
  exact (hf a s' h' ha hq).mono fun scope heq => by rw [heq, ha.current]

theorem reports_lift {x : CheckM α} (hx : Ends (.over A P) s x Q) :
    ReportsUnder A P s (liftM x : AnalysisM α) Q where
  good _ := hx.good
  reaches _ := hx.evaluates.toReaches
  found log := ⟨[], (append_nil log).symm, sited_of_clean allClean_nil⟩
  completes _ := hx.evaluates.completes
  result _ := hx.result
  keeps _ halive := hx.evaluates.keeps halive

/-- Looking at the store is no step of its own. -/
theorem ReportsUnder.get {f : Store → AnalysisM α} (hf : ReportsUnder A P s (f s) Q) :
    ReportsUnder A P s (getThe Store >>= f) Q :=
  ⟨⟨hf.good, hf.reaches, hf.found, hf.completes, hf.result⟩, hf.keeps⟩

theorem ReportsUnder.symbol {id : Nat} {f : Symbol → AnalysisM α}
    (hf : ReportsUnder A P s (f (s.table.symbol id)) Q) :
    ReportsUnder A P s (liftM (Checking.symbol id) >>= f) Q :=
  ReportsUnder.get (f := fun s => f (s.table.symbol id)) hf

theorem report_reports (h : s.Good) (hds : AllClean A ds) :
    ReportsUnder A P s (report ds) fun s' _ => s' = s :=
  reportsUnder_of_eq h (sited_of_clean hds) (fun _ => rfl) rfl

theorem ReportsUnder.report (h : s.Good) (hds : AllClean A ds) {f : Unit → AnalysisM α}
    (hf : ReportsUnder A P s (f ()) Q) : ReportsUnder A P s (report ds >>= f) Q :=
  (report_reports h hds).bind fun _ _ _ _ hs => hs ▸ hf

theorem report_pure_reports (h : s.Good) (hds : AllClean A ds) (ha : Q s a) :
    ReportsUnder A P s (do report ds; return a) Q :=
  reportsUnder_of_eq h (sited_of_clean hds) (fun _ => rfl) ha

theorem reported_reports (h : s.Good) (ht : s.Types A t) :
    ReportsUnder A P s (reported t) fun s' u => s' = s ∧ u = t.type ∧ s'.Holds u :=
  report_pure_reports h ht.clean ⟨rfl, rfl, ht.holds⟩

theorem ReportsUnder.reported (h : s.Good) (ht : s.Types A t) {f : Ty → AnalysisM α}
    (hf : ReportsUnder A P s (f t.type) Q) : ReportsUnder A P s (reported t >>= f) Q :=
  (reported_reports h ht).bind fun _ _ _ _ hu => hu.1 ▸ hu.2.1 ▸ hf

theorem reporting_reports (hc : Ends (.over A P) s check fun _ ds => AllClean A ds) :
    RunsUnder A P s (reporting check) :=
  (reports_lift hc).bind fun _ _ h' _ hds => (report_reports h' hds).imp fun _ _ _ _ _ => trivial

theorem ReportsUnder.discard (hx : ReportsUnder A P s x Q) : RunsUnder A P s (discard x) :=
  hx.bind fun _ _ h' _ _ => .pure h' trivial

theorem forM_reports {xs : List α} {f : α → AnalysisM Unit} (h : s.Good)
    (hf : ∀ a ∈ xs, ∀ {s' : Store}, s'.Good → s.Reaches P s' → RunsUnder A P s' (f a)) :
    RunsUnder A P s (xs.forM f) := by
  induction xs generalizing s with
  | nil => exact .pure h trivial
  | cons a xs ih =>
    rw [forall_mem_cons] at hf
    refine (hf.1 h (.refl s)).bind fun _ s' h' ha _ => ih h' fun a hmem s'' h'' ha' => ?_
    exact hf.2 a hmem h'' (ha.trans ha')

theorem ReportsUnder.of_any (hx : ReportsUnder .any P s x Q) (hno : ¬ s.Orderly A) :
    ReportsUnder A P s x Q where
  good := hx.good
  reaches := hx.reaches
  found log := by
    obtain ⟨ds, hds, hsited⟩ := hx.found log
    exact ⟨ds, hds, hsited.clean, fun ho => absurd ho hno⟩
  completes _ ho := absurd ho hno
  result := hx.result
  keeps := hx.keeps

theorem Sited.loosen (h : Sited A s ds) : Sited A.loose s ds :=
  ⟨h.clean, fun ho d hd =>
    have hd := h.covered ho.tighten d hd
    ⟨hd.code_ne, hd.ne_scopeFault, hd.covered⟩⟩

theorem Sited.tighten (h : Sited A.loose s ds) : Sited A s ds :=
  ⟨h.clean, fun ho d hd =>
    have hd := h.covered ho.loosen d hd
    ⟨hd.code_ne, hd.ne_scopeFault, hd.covered⟩⟩

/-- How complete a computation leaves an orderly store is moved to its result. -/
theorem ReportsUnder.loosen (hx : ReportsUnder A P s x Q) :
    ReportsUnder A.loose P s x fun s' a => (s.Orderly A → s.Completes A s') ∧ Q s' a where
  good := hx.good
  reaches := hx.reaches
  found log := by
    obtain ⟨ds, hds, hsited⟩ := hx.found log
    exact ⟨ds, hds, hsited.loosen⟩
  completes log ho := (hx.completes log ho.tighten).toReturns.loosen
  result log := ⟨hx.completes log, hx.result log⟩
  keeps := hx.keeps

theorem ReportsUnder.tighten
    (hx : ReportsUnder A.loose P s x fun s' a => (s.Orderly A → s.Completes A s') ∧ Q s' a) :
    ReportsUnder A P s x Q where
  good := hx.good
  reaches := hx.reaches
  found log := by
    obtain ⟨ds, hds, hsited⟩ := hx.found log
    exact ⟨ds, hds, hsited.tighten⟩
  completes log := (hx.result log).1
  result log := (hx.result log).2
  keeps := hx.keeps

end

/-! ## Computations that find no error -/

/-- Nothing but warnings. -/
abbrev Quiet (log : List Diagnostic) : Prop := ∀ d ∈ log, d.isWarning = true

/-- A computation that ends as `R` says, unless an error is found. -/
structure Yields {α : Type} (A : Sites) (P : Int → Prop) (s : Store) (x : AnalysisM α)
    (Q R : Store → α → Prop) : Prop extends ReportsUnder A P s x Q where
  quiet : ∀ log, Quiet ((x.run log).run s).1.2 → R ((x.run log).run s).2 ((x.run log).run s).1.1

section

variable {α β : Type} {A : Sites} {P : Int → Prop} {s : Store} {Q R : Store → α → Prop}
  {Q' R' : Store → β → Prop}
  {x : AnalysisM α} {f : α → AnalysisM β}

theorem ReportsUnder.yields {W : Store → α → Prop} (hx : ReportsUnder A P s x W)
    (hw : ∀ s' a, s'.Good → s.Reaches P s' → W s' a → Q s' a ∧ R s' a) : Yields A P s x Q R :=
  have hboth := hx.imp hw
  ⟨hboth.imp fun _ _ _ _ h => h.1, fun log _ => (hboth.result log).2⟩

theorem Yields.pure {a : α} (h : s.Good) (hq : Q s a) (hr : R s a) :
    Yields A P s (Pure.pure a) Q R :=
  ⟨.pure h hq, fun _ _ => hr⟩

theorem Yields.error {d : Diagnostic} (h : s.Good) (hd : d.Clean A)
    (herror : d.isWarning = false) {a : α}
    (hq : Q s a) : Yields A P s (do report [d]; return a) Q R :=
  ⟨report_pure_reports h (allClean_one hd) hq, fun log hlog => by
    have hwarning := hlog d (mem_append_right log (mem_singleton_self d))
    rw [herror] at hwarning
    cases hwarning⟩

/-- Nothing that is found is taken back. -/
theorem Yields.bind (hx : Yields A P s x Q R) (hf : ∀ a s', s'.Good → s.Reaches P s' → Q s' a →
    Yields A P s' (f a) Q' fun s'' b => R s' a → R' s'' b) : Yields A P s (x >>= f) Q' R' := by
  refine ⟨hx.toReportsUnder.bind fun a s' h' ha hq => (hf a s' h' ha hq).toReportsUnder,
    fun log hlog => ?_⟩
  have hnext := hf _ _ (hx.good log) (hx.reaches log) (hx.result log)
  exact hnext.quiet _ hlog (hx.quiet log fun d hd => hlog d ((hnext.appends _).subset hd))

theorem ReportsUnder.then (hx : ReportsUnder A P s x Q)
    (hf : ∀ a s', s'.Good → s.Reaches P s' → Q s' a →
    Yields A P s' (f a) Q' R') : Yields A P s (x >>= f) Q' R' :=
  (hx.yields (R := fun _ _ => True) fun _ _ _ _ hq => ⟨hq, trivial⟩).bind fun a s' h' ha hq =>
    ⟨(hf a s' h' ha hq).toReportsUnder, fun log hlog _ => (hf a s' h' ha hq).quiet log hlog⟩

theorem Yields.tighten
    (hx : Yields A.loose P s x (fun s' a => (s.Orderly A → s.Completes A s') ∧ Q s' a) R) :
    Yields A P s x Q R :=
  ⟨hx.toReportsUnder.tighten, hx.quiet⟩

theorem Yields.imp {Q₁ R₁ : Store → α → Prop} (hx : Yields A P s x Q R)
    (hq : ∀ s' a, s'.Good → s.Reaches P s' → Q s' a → Q₁ s' a) (hr : ∀ s' a, R s' a → R₁ s' a) :
    Yields A P s x Q₁ R₁ :=
  ⟨hx.toReportsUnder.imp hq, fun log hlog => hr _ _ (hx.quiet log hlog)⟩

theorem Yields.get {f : Store → AnalysisM α} (hf : Yields A P s (f s) Q R) :
    Yields A P s (getThe Store >>= f) Q R :=
  ⟨.get hf.toReportsUnder, hf.quiet⟩

theorem Yields.symbol {id : Nat} {f : Symbol → AnalysisM α}
    (hf : Yields A P s (f (s.table.symbol id)) Q R) :
    Yields A P s (liftM (Checking.symbol id) >>= f) Q R :=
  ⟨.symbol hf.toReportsUnder, hf.quiet⟩

end

/-! ## Straight computations -/

/-- A computation that also accounts for its events, one after the other. -/
structure IssuesUnder {α : Type} (A : Sites) (P : Int → Prop) (s : Store) (x : AnalysisM α)
    (Q : Store → α → Prop) : Prop extends ReportsUnder A P s x Q where
  events : ∀ log, s.Evaluates (.over A P) ((x.run log).run s).2

/-- The case of the statements of a scope. -/
abbrev Issues {α : Type} (A : Sites) (s : Store) (x : AnalysisM α) (Q : Store → α → Prop) : Prop :=
  IssuesUnder A (fun scope => scope = s.table.current) s x Q

section

variable {α β : Type} {A : Sites} {P : Int → Prop} {s : Store} {Q : Store → α → Prop}
  {Q' : Store → β → Prop}
  {x : AnalysisM α}

theorem issues_lift {x : CheckM α} (hx : Ends (.over A P) s x Q) :
    IssuesUnder A P s (liftM x : AnalysisM α) Q :=
  ⟨reports_lift hx, fun _ => hx.evaluates⟩

theorem IssuesUnder.pure {a : α} (h : s.Good) (ha : Q s a) : IssuesUnder A P s (Pure.pure a) Q :=
  ⟨.pure h ha, fun _ => .refl _ s⟩

theorem issues_report (h : s.Good) (hds : AllClean A ds) :
    IssuesUnder A P s (report ds) fun s' _ => s' = s :=
  ⟨report_reports h hds, fun _ => .refl _ s⟩

theorem issues_reported (h : s.Good) (ht : s.Types A t) :
    IssuesUnder A P s (reported t) fun s' u => s' = s ∧ u = t.type ∧ s'.Holds u :=
  ⟨reported_reports h ht, fun _ => .refl _ s⟩

theorem IssuesUnder.bind {f : α → AnalysisM β} (hx : IssuesUnder A P s x Q)
    (hf : ∀ a s', s'.Good → s.Reaches P s' → Q s' a → IssuesUnder A P s' (f a) Q') :
    IssuesUnder A P s (x >>= f) Q' := by
  refine ⟨hx.toReportsUnder.bind fun a s' h' ha hq => (hf a s' h' ha hq).toReportsUnder,
    fun log => (hx.events log).trans ?_⟩
  exact (hf _ _ (hx.good log) (hx.reaches log) (hx.result log)).events ((x.run log).run s).1.2

theorem IssuesUnder.imp {R : Store → α → Prop} (hx : IssuesUnder A P s x Q)
    (hq : ∀ s' a, s'.Good → s.Reaches P s' → Q s' a → R s' a) : IssuesUnder A P s x R :=
  ⟨hx.toReportsUnder.imp hq, hx.events⟩

theorem issues_reporting (hc : Ends (.over A P) s check fun _ ds => AllClean A ds) :
    IssuesUnder A P s (reporting check) fun _ _ => True :=
  (issues_lift hc).bind fun _ _ h' _ hds => (issues_report h' hds).imp fun _ _ _ _ _ => trivial

theorem issues_forM {xs : List α} {f : α → AnalysisM Unit} (h : s.Good)
    (hf : ∀ a ∈ xs, ∀ {s' : Store}, s'.Good → s.Reaches P s' →
      IssuesUnder A P s' (f a) fun _ _ => True) :
    IssuesUnder A P s (xs.forM f) fun _ _ => True := by
  induction xs generalizing s with
  | nil => exact .pure h trivial
  | cons a xs ih =>
    rw [forall_mem_cons] at hf
    refine (hf.1 h (.refl s)).bind fun _ s' h' ha _ => ih h' fun a hmem s'' h'' ha' => ?_
    exact hf.2 a hmem h'' (ha.trans ha')

end

/-! ## Scopes -/

section

variable {α β : Type} {A : Sites} {P : Int → Prop} {s s₁ : Store} {Q W : Store → α → Prop}
  {Q' : Store → β → Prop}
  {act : AnalysisM α} {log : List Diagnostic} {R : α → Prop}

section

variable {x : AnalysisM β} {g : α → β} (hd : s.Descends s₁) (hin : s.Orderly A → s.Enters A s₁)
  (hrun : ∀ log, ((act.run log).run s₁).2.table.Parent ((act.run log).run s₁).2.table.current
    s.table.current →
    (x.run log).run s = ((g ((act.run log).run s₁).1.1, ((act.run log).run s₁).1.2),
      ((act.run log).run s₁).2.left s.table.current))
include hd hin hrun

/-- A computation that runs `act` in a scope below and then leaves it. -/
theorem ReportsUnder.scoped (hact : Reports A s₁ act Q)
    (hq : ∀ s' a, s'.Good → s₁.After s' → Q s' a → Q' (s'.left s.table.current) (g a)) :
    ReportsUnder A P s x Q' := by
  have hrun := fun log => hrun log (hd.parent_after (hact.reaches log))
  constructor
  · constructor <;> intro log <;> rw [hrun log]
    · exact hd.left_good (hact.good log) (hact.reaches log)
    · exact hd.left_reaches (hact.reaches log)
    · obtain ⟨ds, hds, hsited⟩ := hact.found log
      exact ⟨ds, hds, hsited.clean, fun ho => hsited.covered (hin ho).orderly⟩
    · intro ho
      have he := hin ho
      exact (he.then (hact.completes log he.orderly)).left
    · exact hq _ _ (hact.good log) (hact.reaches log) (hact.result log)
  · intro log _
    rw [hrun log]
    refine hd.left_keeps (hact.reaches log) (hact.keeps log ?_)
    rintro scope rfl
    exact hd.good.alive_current

theorem Yields.scoped {R' : β → Prop}
    (hact : Yields A (fun scope => scope = s₁.table.current) s₁ act Q fun _ => R)
    (hq : ∀ s' a, s'.Good → s₁.After s' → Q s' a → Q' (s'.left s.table.current) (g a))
    (hr : ∀ a, R a → R' (g a)) :
    Yields A P s x Q' fun _ => R' := by
  refine ⟨.scoped hd hin hrun hact.toReportsUnder hq, fun log hlog => ?_⟩
  rw [hrun log (hd.parent_after (hact.reaches log))] at hlog ⊢
  exact hr _ (hact.quiet log hlog)

end

theorem lift_bind_run {x : CheckM α} {a : α} (hx : x.run s = (a, s₁)) (f : α → AnalysisM β)
    (log : List Diagnostic) :
    ((liftM x >>= f : AnalysisM β).run log).run s = ((f a).run log).run s₁ := by
  show ((f (x.run s).1).run log).run (x.run s).2 = _
  rw [hx]

theorem leave_run (hp : s.table.Parent s.table.current p) :
    leave.run s = (.ok s.table.current, s.left p) := by
  have hexit := onTable_run (s := s) (Table.exit_run hp)
  unfold leave
  rw [StateT.run_bind, hexit]
  rfl

theorem exitScope_run (hp : s.table.Parent s.table.current p) (pos : Position)
    (log : List Diagnostic) :
    ((exitScope pos).run log).run s = (((), log), s.left p) := by
  unfold exitScope
  exact lift_bind_run (leave_run hp) _ log

theorem leaveAt_run (hp : s.table.Parent s.table.current p) (pos : Position)
    (log : List Diagnostic) :
    ((leaveAt pos).run log).run s = (((), log), s.left p) := by
  unfold leaveAt
  exact lift_bind_run (leave_run hp) _ log

theorem inScope_run {kind : ScopeKind} {act : AnalysisM Unit}
    (hp : ((act.run log).run (s.opened kind)).2.table.Parent
      ((act.run log).run (s.opened kind)).2.table.current p) (pos : Position) :
    ((inScope kind pos act).run log).run s = (((), ((act.run log).run (s.opened kind)).1.2),
        ((act.run log).run (s.opened kind)).2.left p) :=
  leaveAt_run hp pos _

theorem inScope_reports (h : s.Good) (kind : ScopeKind) (pos : Position) {act : AnalysisM Unit}
    (hact : Runs A (s.opened kind) act) : RunsUnder A P s (inScope kind pos act) := by
  refine ReportsUnder.scoped (g := fun _ => ()) (Store.descends_opened h kind)
    (·.enters_opened kind) ?_ hact
    fun _ _ _ _ _ => trivial
  exact fun _ hp => inScope_run hp pos

theorem reenter_run (h : s.Good) (hp : s.table.Parent scope s.table.current) :
    (onTable (Table.reenter scope)).run s = (.ok (), s.inside scope) :=
  onTable_run (h.table.reenter_run hp)

/-- What is done in a scope is done before the scope is left. -/
theorem exitAfter_run
    (hp : ((act.run log).run s).2.table.Parent ((act.run log).run s).2.table.current p)
    (pos : Position) :
    ((do
      let result ← act
      exitScope pos
      return result : AnalysisM α).run log).run s =
      ((act.run log).run s |>.1, ((act.run log).run s).2.left p) := by
  have hbind : ((do
      let result ← act
      exitScope pos
      return result : AnalysisM α).run log).run s =
      let out := (act.run log).run s
      let left := ((exitScope pos).run out.1.2).run out.2
      ((out.1.1, left.1.2), left.2) := rfl
  rw [hbind]
  dsimp only
  rw [exitScope_run hp]

section

variable (h : s.Good) (hp : s.table.Parent scope s.table.current) (pos : Position) (fallback : α)
include h hp

theorem within_run (log : List Diagnostic)
    (hleft : ((act.run log).run (s.inside scope)).2.table.Parent
      ((act.run log).run (s.inside scope)).2.table.current p) :
    ((within (some scope) pos fallback act).run log).run s =
      ((act.run log).run (s.inside scope) |>.1, ((act.run log).run (s.inside scope)).2.left p) := by
  unfold within
  refine (lift_bind_run (reenter_run h hp) _ log).trans ?_
  exact exitAfter_run hleft pos

theorem within_reports (hact : (s.inside scope).Good → Reports A (s.inside scope) act Q)
    (hq : ∀ s' a, s'.Good → (s.inside scope).After s' → Q s' a → W (s'.left s.table.current) a) :
    ReportsUnder A P s (within (some scope) pos fallback act) W :=
  have hd := Store.descends_inside h hp
  .scoped (g := id) hd (·.enters_inside hp) (within_run h hp pos fallback) (hact hd.good) hq

theorem within_yields (hact : (s.inside scope).Good →
      Yields A (fun i => i = scope) (s.inside scope) act Q fun _ => R)
    (hq : ∀ s' a, s'.Good → (s.inside scope).After s' → Q s' a → W (s'.left s.table.current) a) :
    Yields A P s (within (some scope) pos fallback act) W fun _ => R :=
  have hd := Store.descends_inside h hp
  .scoped (g := id) hd (·.enters_inside hp) (within_run h hp pos fallback)
    (hact hd.good) hq fun _ => id

end

end

end Analysis

end UnitCheck
