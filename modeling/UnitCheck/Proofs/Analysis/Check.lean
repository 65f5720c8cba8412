import UnitCheck.Proofs.Analysis.Declare
import UnitCheck.Proofs.Checking.Merging

/-!
# Checking bodies

The third pass carries out plans and checks statements. Going through an item ends well whatever it
is (`checkItem_reports`), provided that its operators stand where they may and its plan can be
carried out in the current scope. Blocks, arms and branches leave no record behind, which is why a
branch can be undone by restoring what was known before it: records are only ever taken away in
between.

A declaration inside a body is collected on the spot: the mark of the body qualifies its name,
whatever is around it.
-/

namespace UnitCheck

open Checking List Store

variable {s before s₀ : Store} {set : Setting} {s' : Store}

/-- The result of the function around a statement is registered. -/
def Setting.Holds (set : Setting) (s : Store) : Prop := ∀ t ∈ set.result, s.registry.Holds t

theorem Setting.Holds.advances (h : set.Holds s) (ha : s.Advances s') : set.Holds s' :=
  fun t ht => ha.registry.holds (h t ht)

theorem Setting.Holds.mono {P : Int → Prop} (h : set.Holds s) (ha : s.Reaches P s') :
    set.Holds s' :=
  h.advances ha.advances

theorem Setting.Holds.of_result {set' : Setting} (h : set.Holds s)
    (heq : set'.result = set.result) :
    set'.Holds s := by
  intro t ht
  rw [heq] at ht
  exact h t ht

theorem Setting.Holds.descends {s₁ : Store} (h : set.Holds s) (hd : s.Descends s₁) : set.Holds s₁ :=
  h.advances hd.advances

/-- A plan that can be carried out in the current scope. -/
theorem Plan.Stands.reaches {P : Int → Prop} {plan : Plan}
    (hp : plan.Stands s s.table.current) (ha : s.Reaches P s') :
    plan.Stands s' s'.table.current := by
  rw [ha.current]
  exact Plan.Stands.mono ha.advances plan hp

/-- Whether an item binds a reference to a place. -/
def Item.lends : Item → Bool
  | .letVar d => d.value.any Checking.lends
  | .constant d => d.value.any Checking.lends
  | _ => false

namespace Analysis

section

variable {A : Sites} {P : Int → Prop} {pos : Position} {body : AnalysisM Unit} {var : Label}
  {cond : Expr}

/-! ## Branches -/

section

variable (h : s.Good) {functions : List Function} {plan : Plan} {type : Ty} {i : Item}
  {kind : SymbolKind}
  {types : List Ty} {α : Type} {t : Typed}
include h

/-- A change of what is known that leaves no record which was not there. -/
theorem onLedger_endsUnder {f : Ledger → Ledger}
    (hsound : (f s.ledger).Sound) (hspent : (f s.ledger).Spent)
    (hu : Ledger.Under P s.ledger (f s.ledger)) (hc : s.ledger.Continues (f s.ledger))
    (htemp : (f s.ledger).nextTemporary = s.ledger.nextTemporary)
    (htracked : ∀ id, (f s.ledger).isTracked id = s.ledger.isTracked id) :
    EndsUnder A P s (liftM (onLedger f) : AnalysisM Unit) fun s' _ =>
      s' = { s with ledger := f s.ledger } where
  good _ := h.withLedger hsound hspent (htemp ▸ h.temporary_lt) fun hid =>
    h.tracked_lt (htracked _ ▸ hid)
  reaches _ := reaches_withLedger s [] hu hc (by simp)
  found log := ⟨[], (append_nil log).symm, sited_of_clean allClean_nil⟩
  completes _ ho := ho.aside rfl rfl
  result _ := rfl

/-- What was known before a branch is known again. In between records were taken away only, so none
belongs to a variable that had been moved. -/
theorem restore_endsUnder (hb : before.Good)
    (hu : Ledger.Under (fun _ => False) before.ledger s.ledger) :
    EndsUnder A P s (liftM (onLedger (·.restore before.ledger.snapshot)) : AnalysisM Unit)
      fun s' _ => s' = { s with ledger := s.ledger.restore before.ledger.snapshot } :=
  onLedger_endsUnder h (h.ledger.restore _) (h.spent.restore hb.spent hu) (Ledger.under_restore _ _)
    (Ledger.continues_restore _ _) rfl (Ledger.isTracked_restore _ _)

/-- What is known on two branches. -/
theorem join_endsUnder (other : Snapshot) :
    EndsUnder A P s (liftM (onLedger (·.join other)) : AnalysisM Unit) fun s' _ =>
      s' = { s with ledger := s.ledger.join other } :=
  onLedger_endsUnder h (h.ledger.join other) (h.spent.join other) (Ledger.under_join _ other)
    (Ledger.continues_join _ other) rfl (Ledger.isTracked_join _ other)

omit h in
theorem EndsUnder.ledger {f : Ledger → AnalysisM α} {Q : Store → α → Prop}
    (hf : EndsUnder A P s (f s.ledger) Q) :
    EndsUnder A P s (Analysis.ledger >>= f) Q :=
  ⟨hf.good, hf.reaches, hf.found, hf.completes, hf.result⟩

omit h in
theorem ReportsUnder.ledger {f : Ledger → AnalysisM α} {Q : Store → α → Prop}
    (hf : ReportsUnder A P s (f s.ledger) Q) :
    ReportsUnder A P s (Analysis.ledger >>= f) Q :=
  ⟨.ledger hf.toEndsUnder, hf.keeps⟩

/-- A branch is gone through and undone, and then the other one is gone through and joined. -/
abbrev branching (first second : AnalysisM Unit) : AnalysisM Unit := do
  let before := (← ledger).snapshot
  first
  let after := (← ledger).snapshot
  onLedger (·.restore before)
  second
  onLedger (·.join after)

/-- A round is gone through once and joined to what was known before it. -/
abbrev repeating (round : AnalysisM Unit) : AnalysisM Unit := do
  let before := (← ledger).snapshot
  round
  onLedger (·.join before)

/-- Two branches, of which the second starts again from what was known before the first; then the
ends are joined. -/
theorem branches_reports {first second : AnalysisM Unit}
    (hfirst : RunsUnder A (fun _ => False) s first)
    (hsecond : ∀ {s' : Store}, s'.Good → s.Reaches (fun _ => False) s' →
      RunsUnder A (fun _ => False) s' second) :
    RunsUnder A (fun _ => False) s (branching first second) := by
  refine .ledger (EndsUnder.reports ?_)
  refine (hfirst.kept fun _ => False.elim).bind fun _ s₂ h₂ hr₂ hk₂ => .ledger ?_
  refine (restore_endsUnder h₂ h hr₂.records).bind fun _ s₃ h₃ hr₃ hs₃ => ?_
  refine ((hsecond h₃ (hr₂.trans hr₃)).kept fun _ => False.elim).bind fun _ s₄ h₄ hr₄ hk₄ => ?_
  refine (join_endsUnder h₄ _).imp fun s₅ _ _ hr₅ hs₅ => ⟨?_, trivial⟩
  subst hs₃ hs₅
  -- the second branch ends in the store itself, and the first one is joined to it
  have hfirst := (hk₂.1.ended hr₂).later ((hr₃.trans hr₄).trans hr₅).trail
  have hsecond := ((hk₄.1.ended hr₄).of_restored hr₂).later hr₅.trail
  have hspared := hk₂.1.spares.trans (spares_restore _ _ []) hr₂ hr₃.trail
  have hspared := hspared.trans hk₄.1.spares (hr₂.trans hr₃) hr₄.trail
  have hjoined := hspared.trans (spares_join s₄ _) ((hr₂.trans hr₃).trans hr₄) hr₅.trail
  have hmerges := (merges_snapshot s s₄).join hfirst
  refine hmerges.keeps (by simp) ?_ (hjoined.mono (by simp))
  simp only [cons_append, nil_append, forall_mem_cons, not_mem_nil, false_implies,
    implies_true, and_true]
  exact ⟨hsecond, hfirst⟩

omit h in
/-- A loop: the end of its body is joined with what was known before. -/
theorem rounds_reports {round : AnalysisM Unit} (hround : RunsUnder A (fun _ => False) s round) :
    RunsUnder A (fun _ => False) s (repeating round) := by
  refine .ledger (EndsUnder.reports ?_)
  refine (hround.kept fun _ => False.elim).bind fun _ s₂ h₂ hr₂ hk₂ => ?_
  refine (join_endsUnder h₂ _).imp fun s₃ _ _ hr₃ hs₃ => ⟨?_, trivial⟩
  subst hs₃
  -- no round and one round, as two branches
  have hnone :=
    ((Store.Keeps.refl s).ended (.refl (P := fun _ => False) s)).later (hr₂.trans hr₃).trail
  have hsome := (hk₂.1.ended hr₂).later hr₃.trail
  have hspared := hk₂.1.spares.trans (spares_join s₂ _) hr₂ hr₃.trail
  have hmerges := (merges_snapshot s s₂).join hnone
  refine hmerges.keeps (by simp) ?_ hspared
  simp only [cons_append, nil_append, forall_mem_cons, not_mem_nil, false_implies,
    implies_true, and_true]
  exact ⟨hsome, hnone⟩

/-- The ends of arms that have been gone through from the store `s` on, each from what was known
`before` them. Each snapshot is that of a store whose records include all that are left. -/
structure EndsOf (before s s' : Store) (ends : List Snapshot) : Prop where
  taken : ∀ e ∈ ends, ∃ ended : Store, ended.Good ∧ e = ended.ledger.snapshot ∧
    Ledger.Under (fun _ => False) ended.ledger s'.ledger
  ended : ∀ e ∈ ends, before.Ended e s'
  spares : s.Spares ends s'
  same : ends = [] → s' = s

omit h in
theorem EndsOf.nil (before s : Store) : EndsOf before s s [] where
  taken _ he := by cases he
  ended _ he := by cases he
  spares := .refl s
  same _ := rfl

omit h in
/-- One arm after the other, each from what was known before the match. -/
theorem arms_endsUnder (hb : before.Good) (h : s.Good) (hr : before.Reaches (fun _ => False) s)
    {arm : AnalysisM Unit} {rest : AnalysisM (List Snapshot)}
    (harm : ∀ {s' : Store}, s'.Good → before.Reaches (fun _ => False) s' →
      RunsUnder A (fun _ => False) s' arm)
    (hrest : ∀ {s' : Store}, s'.Good → before.Reaches (fun _ => False) s' →
      EndsUnder A (fun _ => False) s' rest (EndsOf before s')) :
    EndsUnder A (fun _ => False) s (do
      onLedger (·.restore before.ledger.snapshot)
      arm
      let first := (← ledger).snapshot
      let others ← rest
      return first :: others) (EndsOf before s) := by
  refine (restore_endsUnder h hb hr.records).bind fun _ s₁ h₁ hr₁ hs₁ => ?_
  refine ((harm h₁ (hr.trans hr₁)).kept fun _ => False.elim).bind fun _ s₂ h₂ hr₂ hk₂ => .ledger ?_
  refine (hrest h₂ ((hr.trans hr₁).trans hr₂)).bind fun others s₃ h₃ hr₃ hothers => ?_
  subst hs₁
  have hfirst := ((hk₂.1.ended hr₂).of_restored hr).later hr₃.trail
  have hspared := (spares_restore s before.ledger.snapshot []).trans hk₂.1.spares hr₁ hr₂.trail
  refine (ReportsUnder.pure h₃ ⟨?_, ?_, hspared.trans hothers.spares (hr₁.trans hr₂) hr₃.trail,
    fun hnil => by cases hnil⟩).toEndsUnder
  · exact forall_mem_cons.mpr ⟨⟨_, h₂, rfl, hr₃.records⟩, hothers.taken⟩
  · exact forall_mem_cons.mpr ⟨hfirst, hothers.ended⟩

/-- The ends of branches are joined one by one. -/
theorem joinOthers_endsUnder {done others : List Snapshot}
    (hothers : ∀ e ∈ others, before.Ended e s₀) (hm : before.Merges done s) :
    EndsUnder A (fun _ => False) s
      (others.forM fun other => onLedger (·.join other) : AnalysisM Unit)
      fun s' _ => before.Merges (done ++ others) s' ∧ s.Spares others s' := by
  induction others generalizing s done with
  | nil =>
    rw [append_nil]
    exact (ReportsUnder.pure h ⟨hm, .refl s⟩).toEndsUnder
  | cons e others ih =>
    rw [forall_mem_cons] at hothers
    refine (join_endsUnder h e).bind fun _ s' h' hr' hs' => ?_
    subst hs'
    refine (ih h' hothers.2 (hm.join hothers.1)).imp fun s'' _ _ hr'' hq => ?_
    rw [append_assoc] at hq
    exact ⟨hq.1, (spares_join s e).trans hq.2 hr' hr''.trail⟩

/-- The first end is gone back to, and the others are joined to it. -/
theorem mergeEnds_endsUnder {first : Snapshot} {others : List Snapshot}
    (hends : EndsOf before s₀ s (first :: others)) :
    EndsUnder A (fun _ => False) s (do
      onLedger (·.restore first)
      others.forM fun other => onLedger (·.join other) : AnalysisM Unit)
      fun s' _ => before.Merges (first :: others) s' ∧ s.Spares others s' := by
  obtain ⟨ended, h', rfl, hu⟩ := hends.taken first mem_cons_self
  refine (restore_endsUnder h h' hu).bind fun _ s₁ h₁ hr₁ hs₁ => ?_
  subst hs₁
  have hended := forall_mem_cons.mp hends.ended
  refine (joinOthers_endsUnder h₁ hended.2 (merges_restore hended.1 s)).imp fun s₂ _ _ hr₂ hq => ?_
  exact ⟨hq.1, (spares_restore s ended.ledger.snapshot []).trans hq.2 hr₁ hr₂.trail⟩

omit h in
/-- The arms of a match are gone through, and what is known at their ends is put together. -/
theorem merged_reports {arms : AnalysisM (List Snapshot)}
    (harms : EndsUnder A (fun _ => False) s arms (EndsOf s s)) :
    RunsUnder A (fun _ => False) s (do
      let ends ← arms
      match ends with
      | [] => pure ()
      | first :: others =>
        onLedger (·.restore first)
        others.forM fun other => onLedger (·.join other)) := by
  refine EndsUnder.reports ?_
  refine harms.bind fun ends s₁ h₁ hr₁ hends => ?_
  split
  · obtain rfl := hends.same rfl
    exact (ReportsUnder.pure h₁ ⟨.refl _, trivial⟩).toEndsUnder
  next first others =>
    refine (mergeEnds_endsUnder h₁ hends).imp fun s₂ _ _ hr₂ hq => ⟨?_, trivial⟩
    have hspared := hends.spares.trans hq.2 hr₁ hr₂.trail
    refine hq.1.keeps (by simp) (fun e he => (hends.ended e he).later hr₂.trail) (hspared.mono ?_)
    intro e he
    rcases mem_append.mp he with he | he
    · exact he
    · exact mem_cons_of_mem _ he

/-! ## Traits -/

omit h in
/-- What is wrong with one function of an implementation is about the unit. -/
theorem allClean_traitFunctionFaults (trait required : Symbol)
    (hat : Function.AllPlaced A functions) (hpos : A.covers pos) :
    AllClean A (traitFunctionFaults trait required functions pos) := by
  unfold traitFunctionFaults
  dsimp only
  split
  · split
    · exact allClean_nil
    · exact allClean_one (Diagnostic.clean_of_code rfl hpos)
  next shape f hshape hfound =>
    -- the function that is at fault is one of those given, and the fault stands at its name
    have hmem : f ∈ functions := mem_reverse.mp (mem_of_find?_eq_some hfound)
    have hf := (Function.allPlaced_iff.mp hat f hmem).head_placed
    split
    · exact allClean_nil
    · exact allClean_mk' hf.head.label.pos _ rfl
  · exact allClean_nil

omit h in
/-- So is what is wrong with an implementation as a whole. -/
theorem allClean_traitFaults (t : Table) (hat : Function.AllPlaced A functions)
    (hpos : A.covers pos)
    (found : Except LookupFault Nat) : AllClean A (traitFaults t functions pos found) := by
  cases found with
  | error fault => exact allClean_one (fault.clean hpos)
  | ok id =>
    rw [traitFaults]
    split
    · refine AllClean.append (fun d hd => ?_) fun d hd => ?_
      · obtain ⟨m, -, hd⟩ := mem_flatMap.mp hd
        exact allClean_traitFunctionFaults _ _ hat hpos d hd
      · obtain ⟨label, hlabel, hd⟩ := mem_flatMap.mp hd
        obtain ⟨f, hmem, rfl⟩ := List.mem_map.mp hlabel
        have hf := (Function.allPlaced_iff.mp hat f hmem).head_placed
        split at hd
        · cases hd
        · exact allClean_mk' hf.head.label.pos _ rfl d hd
    · exact allClean_mk' hpos _ rfl

theorem marks_reports (ids : List Nat) :
    RunsUnder A P s (ids.forM fun id => onTable (modify (·.markUsed id))) :=
  forM_reports h fun id _ _ h' _ =>
    (reports_lift (markUsed_ends h' id)).imp fun _ _ _ _ _ => trivial

theorem checkTrait_reports (path : List String) (hat : Function.AllPlaced A functions)
    (hpos : A.covers pos) :
    RunsUnder A P s (checkTrait path functions pos) := by
  unfold checkTrait
  refine .get (.report h (allClean_traitFaults _ hat hpos _) ?_)
  split
  · exact .pure h trivial
  · exact marks_reports h _

/-! ## Plans -/

/-- A symbol of the current scope is kept as a variable with a value, whether it was one before or
not. -/
theorem keep_reports {id : Nat} {y : Symbol} (hy : s.table.symbols[id]? = some y)
    (hscope : y.scope = s.table.current) (name : String) (mutable : Bool) :
    RunsUnder A P s (liftM (keep id name mutable true) : AnalysisM Unit) where
  good _ := declare_good h hy name mutable true _
  reaches _ := declare_reaches hy hscope name mutable true
  found log := ⟨[], (append_nil log).symm, sited_of_clean allClean_nil⟩
  completes _ ho := ho.aside rfl rfl
  result _ := trivial
  keeps _ _ := declare_keeps id name mutable fun _ => rfl

/-- A mismatch is reported where the variable was declared. -/
theorem settlePlaced_reports (hp : plan.Stands s s.table.current)
    (hpos : ∀ id, plan = .value id → A.covers (s.table.symbol id).pos)
    (ht : s.Holds type) (initialized : Bool) : RunsUnder A P s (settle plan type initialized) := by
  unfold settle
  split
  next id =>
    obtain ⟨y, hy, hscope, hk⟩ := hp
    refine .symbol ?_
    refine (reports_lift (setType_ends h hy hk ht (hpos id rfl))).bind fun ds s' h' ha hds =>
      .report h' hds ?_
    split
    · have hf : Symbol.Amends fun s => { s with initialized := true } := .of_same fun _ => rfl
      refine (amend_reports h' id hf (fun x hx => hx.of_eq rfl rfl rfl) fun _ _ => rfl).bind
        fun _ s'' h'' ha' _ => ?_
      have hall := ha.trans ha'
      obtain ⟨y', hy', hst⟩ := hall.table.symbol hy
      exact keep_reports h'' hy' (by rw [hst.scope_eq, hscope, hall.current]) _ _
    · exact .pure h' trivial
  · exact .pure h trivial

theorem settle_reports (hp : plan.Stands s s.table.current)
    (ht : s.Holds type) (initialized : Bool) : RunsUnder A P s (settle plan type initialized) := by
  by_cases ho : s.Orderly A
  · refine settlePlaced_reports h hp (fun id heq => ?_) ht initialized
    subst heq
    obtain ⟨y, hy, -⟩ := hp
    rw [Table.symbol_of_get? hy]
    exact ho.symbol_pos hy
  · have hany : RunsUnder .any P s (settle plan type initialized) :=
      settlePlaced_reports h hp (fun _ _ => trivial) ht initialized
    exact hany.of_any ho

/-- A variable or constant of a unit is given the type that was found for it. -/
theorem settled_reports (ht : s.Types A t) (hp : plan.Stands s s.table.current)
    (initialized : Bool) :
    RunsUnder A P s (do
      let type ← reported t
      settle plan type initialized) :=
  .reported h ht (settle_reports h hp ht.holds initialized)

/-- A declaration inside a body is collected and declared on the spot, and what comes of it suits
the item. -/
theorem planHere_reports (set : Setting) (hat : i.Placed A) :
    Yields A P s (planHere set i) (fun s' out =>
      out.1.result = set.result ∧ out.2.Stands s' s'.table.current) fun _ out => i.Suits out.2 := by
  unfold planHere
  split
  · exact .error h (clean_misplaced hat.at_pos (by decide) (by decide)) rfl ⟨rfl, by simp⟩
  have houter : RunsUnder A P s enclosingFunction := by
    unfold enclosingFunction
    refine .get ?_
    dsimp only
    split
    · exact .pure h trivial
    · exact .pure h trivial
  refine houter.then fun outer s' h' _ _ => .get ?_
  -- the number of the current scope is in the mark, so it qualifies whatever `set.path` is
  have hpath : s'.table.Qualifies _ _ := .body set.path outer s'.table.current
  refine (collectItem_reports _ i hat h' fun _ => hpath).bind fun sketch s'' h'' _ hsketch => ?_
  refine (resolveImports_reports h'' (by simp) true).discard.then fun _ s₃ h₃ ha₃ _ => ?_
  have hsketch := Item.Sketched.grows ha₃.table i hsketch
  rw [← ha₃.current] at hsketch
  exact (declareItem_reports i hat h₃ hsketch).bind fun plan s₄ h₄ _ hplan =>
    .pure h₄ ⟨rfl, hplan⟩ fun hsuits hdrafted => hsuits hdrafted

theorem planned_reports (set : Setting) (hat : i.Placed A) {plan : Option Plan}
    (hp : ∀ p ∈ plan, p.Stands s s.table.current) : Yields A P s (planned set i plan) (fun s' out =>
      out.1.result = set.result ∧ out.2.Stands s' s'.table.current) fun _ out =>
        (∀ p ∈ plan, i.Suits p) → i.Suits out.2 := by
  cases plan with
  | none => exact (planHere_reports h set hat).imp (fun _ _ _ _ hq => hq) fun _ _ hr _ => hr
  | some p => exact .pure h ⟨rfl, hp p rfl⟩ fun hr => hr p rfl

/-- The plan of an item is made, if there is none yet, and carried out. -/
theorem planned_bind (hset : set.Holds s) (hat : i.Placed A) {plan : Option Plan}
    (hp : ∀ p ∈ plan, p.Stands s s.table.current) {act : Setting × Plan → AnalysisM Unit}
    (hact : ∀ {s' : Store} {set' : Setting} (plan' : Plan), s'.Good → set'.Holds s' →
      plan'.Stands s' s'.table.current → RunsUnder A P s' (act (set', plan'))) :
    RunsUnder A P s (planned set i plan >>= act) := by
  refine (planned_reports h set hat hp).toReportsUnder.bind fun out s' h' ha hout => ?_
  exact hact out.2 h' ((hset.mono ha).of_result hout.1) hout.2

/-! ## Parameters -/

theorem issues_declareLocal (name : String) (hk : kind.isNominal = false) (hpos : A.covers pos)
    (ht : s.Holds type) (mutable initialized : Bool) :
    IssuesUnder A P s
      (do report (← declareLocal name kind pos type mutable initialized) : AnalysisM Unit)
      fun _ _ => True :=
  issues_reporting (declareLocal_ends h name hk hpos ht mutable initialized)

theorem issues_declareFound (ht : s.Types A t) (name : String) (hk : kind.isNominal = false)
    (hpos : A.covers pos) (mutable initialized : Bool) :
    IssuesUnder A P s (do
      let type ← reported t
      report (← declareLocal name kind pos type mutable initialized)) fun _ _ => True :=
  (issues_reported h ht).bind
    fun _ _ h' _ hu => issues_declareLocal h' name hk hpos hu.2.2 mutable initialized

theorem issues_declareEach {params : List Param} (hat : ∀ p ∈ params, p.Placed A)
    (ht : ∀ t ∈ types, s.Holds t) :
    IssuesUnder A P s ((params.zip types).forM fun (p, type) => do
      report (← declareLocal p.label.text .parameter p.label.pos type p.mutable true))
      fun _ _ => True := by
  refine issues_forM h fun p hmem s' h' ha => ?_
  have hp := of_mem_zip hmem
  exact issues_declareLocal h' _ rfl (hat _ hp.1).label.pos (ha.holds (ht _ hp.2)) _ _

theorem issues_declareParams {self : Option Ty} (hself : ∀ t ∈ self, s.Holds t) {f : FunctionHead}
    (hat : f.Placed A) (ht : ∀ t ∈ types, s.Holds t) :
    IssuesUnder A P s (declareParams self f types) fun _ _ => True := by
  unfold declareParams
  split
  next type =>
    exact (issues_declareLocal h "self" rfl hat.head.label.pos (hself type rfl) false true).bind
      fun _ s' h' ha _ => issues_declareEach h' hat.params fun t hmem => ha.holds (ht t hmem)
  · exact issues_declareEach h hat.params ht

/-- The type of a symbol, if there is such a symbol and it has one. -/
theorem holds_symbolType {id : Nat} {t : Ty} (ht : (s.table.symbol id).type = some t) :
    s.Holds t := by
  rcases hget : s.table.symbols[id]? with _ | y
  · rw [Table.symbol, Array.getD_eq_getD_getElem?, hget] at ht
    cases ht
  · rw [Table.symbol_of_get? hget] at ht
    exact (h.typed hget).holds t ht

/-- The type that `Self` stands for in the functions of a trait. -/
theorem holds_traitSelf {id : Nat} {t : Ty}
    (ht : t ∈ match s.table.member? (s.table.symbol id) "Self" with
      | some self => (s.table.symbol self).type
      | none => some .invalid) : s.Holds t := by
  split at ht
  · exact holds_symbolType h ht
  · obtain rfl := Option.some.inj ht
    exact h.registry.basic .invalid

/-! ## Statements without bodies -/

theorem issues_letVar (set : Setting) {d : LetDecl} (hat : d.Placed A) (hd : ∀ e ∈ d.value, e.Fits)
    (hlends : d.value.any lends = true → P s.table.current) :
    IssuesUnder A P s (checkItem set (.letVar d) none) fun _ _ => True := by
  rw [checkItem]
  exact (issues_lift (variableType_ends h hat.label.pos hat.type hd hat.value hlends)).bind
    fun t s₁ h₁ _ ht => issues_declareFound h₁ ht _ rfl hat.label.pos _ _

theorem issues_constant (set : Setting) {d : ConstDecl} (hat : d.Placed A)
    (hd : ∀ e ∈ d.value, e.Fits) (hlends : d.value.any lends = true → P s.table.current) :
    IssuesUnder A P s (checkItem set (.constant d) none) fun _ _ => True := by
  rw [checkItem]
  have hlabel := hat.head.label.pos
  exact (issues_lift (constantType_ends h hlabel hat.type hd hat.value hlends)).bind
    fun t s₁ h₁ _ ht => issues_declareFound h₁ ht _ rfl hlabel _ _

theorem issues_expression (set : Setting) {e : Expr} (hat : e.Placed A) (he : e.Fits)
    (plan : Option Plan) :
    IssuesUnder A P s (checkItem set (.expression e) plan) fun _ _ => True := by
  rw [checkItem]
  refine (issues_lift (evaluateRead_ends h he hat)).bind fun t s' h' _ ht => ?_
  exact (issues_report h' ht.clean).imp fun _ _ _ _ _ => trivial

theorem issues_return (hset : set.Holds s) (hpos : A.covers pos) {value : Option Expr}
    (hat : ∀ e ∈ value, e.Placed A) (hv : ∀ e ∈ value, e.Fits) (plan : Option Plan) :
    IssuesUnder A P s (checkItem set (.returnWith pos value) plan) fun _ _ => True := by
  rw [checkItem]
  exact issues_reporting (returnValue_ends h hset hpos hv hat)

/-- What a loop does at the start of each round. -/
def declareLoopVar (var : Label) (elem : Ty) : AnalysisM Unit := do
  let elem ← resolve elem
  report (← declareLocal var.text .letVar var.pos elem false true)

theorem issues_loopVar (hvar : A.covers var.pos) {elem : Ty} (he : s.Holds elem) :
    IssuesUnder A P s (declareLoopVar var elem) fun _ _ => True :=
  (issues_lift (resolve_ends h he)).bind
    fun _ _ h' _ hu => issues_declareLocal h' var.text rfl hvar hu false true

end

/-! ## Statements with bodies

What is asked of the bodies is what the induction over items gives for blocks: they leave no record
behind.
-/

/-- A computation that leaves no record behind, on every store that the statement may have come
to. -/
def Shuts (A : Sites) (s : Store) (act : AnalysisM Unit) : Prop :=
  ∀ {s' : Store}, s'.Good → s.Advances s' → RunsUnder A (fun _ => False) s' act

theorem ifElse_reports (h : s.Good) (hat : cond.Placed A) (hc : cond.Fits)
    {thenAct elseAct : AnalysisM Unit} (hthen : Shuts A s thenAct) (helse : Shuts A s elseAct) :
    RunsUnder A P s (do
      reporting (condition cond "if condition")
      branching thenAct elseAct) := by
  refine (reporting_reports (condition_ends h hc hat _)).bind fun _ s₁ h₁ ha₁ _ => ?_
  exact (branches_reports h₁ (hthen h₁ ha₁.advances)
    fun h' hr => helse h' (ha₁.advances.trans hr.advances)).reports

theorem whileLoop_reports (h : s.Good) (hat : cond.Placed A) (hc : cond.Fits)
    (hbody : Shuts A s body) :
    RunsUnder A P s (do
      reporting (condition cond "while condition")
      repeating body) := by
  refine (reporting_reports (condition_ends h hc hat _)).bind fun _ s₁ h₁ ha₁ _ => ?_
  exact (rounds_reports (hbody h₁ ha₁.advances)).reports

/-- A `for`, for any check of its body. -/
theorem forEach_reports (h : s.Good) (pos : Position) (hvar : A.covers var.pos) {iter : Expr}
    (hat : iter.Placed A)
    (hi : iter.Fits) (hbody : ∀ {s' : Store}, s'.Good → s.Advances s' → Runs A s' body) :
    RunsUnder A P s (do
      let elem ← reported (← loopElement iter)
      repeating (inScope .loop pos do
        let elem ← resolve elem
        report (← declareLocal var.text .letVar var.pos elem false true)
        body)) := by
  refine (reports_lift (loopElement_ends h hi hat)).bind fun t s₁ h₁ ha₁ ht => .reported h₁ ht ?_
  have hd := descends_opened h₁ .loop
  have hact : Runs A (s₁.opened .loop) (do
      declareLoopVar var t.type
      body) := by
    refine Reports.bind (issues_loopVar hd.good hvar ht.holds).toReportsUnder
      fun _ s₂ h₂ ha₂ _ => ?_
    exact hbody h₂ (ha₁.advances.trans (hd.advances.trans ha₂.advances))
  exact (rounds_reports (inScope_reports h₁ .loop pos hact)).reports

/-- A match, for any check of its arms. -/
theorem matchOn_reports (h : s.Good) {scrutinee : Expr} (hat : scrutinee.Placed A)
    (hs : scrutinee.Fits) (arms : Ty → Snapshot → AnalysisM (List Snapshot))
    (harms : ∀ {s' : Store} {t : Ty}, s'.Good → s.Advances s' → s'.Holds t →
      EndsUnder A (fun _ => False) s' (arms t s'.ledger.snapshot) (EndsOf s' s')) :
    RunsUnder A P s (do
      let t ← evaluateRead scrutinee
      report t.faults
      let before := (← ledger).snapshot
      let ends ← arms (if t.faults.isEmpty then t.type else .invalid) before
      match ends with
      | [] => pure ()
      | first :: others =>
        onLedger (·.restore first)
        others.forM fun other => onLedger (·.join other)) := by
  refine (reports_lift (evaluateRead_ends h hs hat)).bind fun t s₁ h₁ ha₁ ht => ?_
  refine .report h₁ ht.clean (.ledger (merged_reports (harms h₁ ha₁.advances ?_)).reports)
  split
  · exact ht.holds
  · exact h₁.registry.basic .invalid

/-! ## Items -/

mutual

/-- Checking an item adds diagnostics about the unit and leaves a good store. Only the binding of a
reference leaves a record behind, under the current scope. -/
theorem checkItem_reports (i : Item) (hat : i.Placed A) {P : Int → Prop} {s : Store} {set : Setting}
    {plan : Option Plan} (hi : i.Fits) (h : s.Good) (hset : set.Holds s)
    (hplan : ∀ p ∈ plan, p.Stands s s.table.current) (hlends : i.lends = true → P s.table.current) :
    RunsUnder A P s (checkItem set i plan) := by
  match i with
  -- bodies inside the item are smaller, and what is said of them belongs to the same induction
  | .bad .. =>
    rw [checkItem]
    exact .pure h trivial
  | .letVar d =>
    cases plan with
    | none => exact (issues_letVar h set hat hi hlends).toReportsUnder
    | some p =>
      rw [checkItem]
      exact (reports_lift (variableType_ends h hat.label.pos hat.type hi hat.value hlends)).bind
        fun _ _ h' ha ht => settled_reports h' ht (Plan.Stands.reaches (hplan p rfl) ha) _
  | .constant d =>
    cases plan with
    | none => exact (issues_constant h set hat hi hlends).toReportsUnder
    | some p =>
      rw [checkItem]
      exact (reports_lift
        (constantType_ends h hat.head.label.pos hat.type hi hat.value hlends)).bind
        fun _ _ h' ha ht => settled_reports h' ht (Plan.Stands.reaches (hplan p rfl) ha) _
  | .function f =>
    rw [checkItem]
    refine planned_bind h hset hat hplan fun {s' set'} plan' h' _ hst => ?_
    cases plan' with
    | function p =>
      exact checkFunction_reports f hat hi h' (by simp) fun q hq => Option.some.inj hq ▸ hst
    | _ => exact .pure h' trivial
  | .structType d | .enumType d | .use d =>
    rw [checkItem]
    exact (planned_reports h set hat hplan).discard
  | .classType d functions =>
    rw [checkItem]
    refine planned_bind h hset hat hplan fun {s' set'} plan' h' _ hst => ?_
    cases plan' with
    | methods id plans =>
      obtain ⟨kind, m, -, ho, hplans⟩ := hst
      refine .symbol ?_
      rw [ho.members]
      have hd := descends_inside h' ho.parent
      exact within_reports h' ho.parent _ () (checkFunctions_reports functions hat.2 hi ·
        (fun t ht => holds_symbolType h' ht) (hplans.mono hd.advances)) fun _ _ _ _ hq => hq
    | _ => exact .pure h' trivial
  | .traitType d functions =>
    rw [checkItem]
    refine planned_bind h hset hat hplan fun {s' set'} plan' h' _ hst => ?_
    cases plan' with
    | methods id plans =>
      obtain ⟨kind, m, -, ho, hplans⟩ := hst
      refine .get ?_
      dsimp only
      rw [ho.members]
      have hd := descends_inside h' ho.parent
      exact within_reports h' ho.parent _ () (checkFunctions_reports functions hat.2 hi ·
        (fun t ht => holds_traitSelf h' ht) (hplans.mono hd.advances)) fun _ _ _ _ hq => hq
    | _ => exact .pure h' trivial
  | .implementation d functions =>
    rw [checkItem]
    refine planned_bind h hset hat hplan fun {s' set'} plan' h' _ hst => ?_
    cases plan' with
    | implementation scope target plans =>
      obtain ⟨⟨id, ho⟩, htarget, hplans⟩ := hst
      have hp := ho.parent
      have hd := descends_inside h' hp
      have hfunctions : ∀ {s'' : Store}, s''.Good → (s'.inside scope).After s'' →
          Runs A s'' (checkFunctions set' (some target) false functions plans) := by
        intro s'' h'' ha
        refine checkFunctions_reports functions hat.2 hi h'' (fun t ht => ?_) ?_
        · obtain rfl := Option.some.inj ht
          exact ha.holds htarget
        · rw [ha.current]
          exact (hplans.mono hd.advances).mono ha.advances
      refine within_reports h' hp _ () (fun _ => ?_) fun _ _ _ _ hq => hq
      split
      · exact Reports.bind (checkTrait_reports hd.good _ hat.2 hat.1.pos)
          fun _ s'' h'' ha _ => hfunctions h'' ha
      · exact hfunctions hd.good (.refl _)
    | _ => exact .pure h' trivial
  | .moduleBlock d body =>
    rw [checkItem]
    refine planned_bind h hset hat hplan fun {s' set'} plan' h' hset' hst => ?_
    cases plan' with
    | moduleBody id plans =>
      obtain ⟨m, ho, hplans⟩ := hst
      refine .symbol ?_
      rw [ho.members]
      have hd := descends_inside h' ho.parent
      exact within_reports h' ho.parent _ () (checkItems_reports body hat.2 hi · (hset'.descends hd)
        (Plan.AllStand.mono hd.advances plans hplans)) fun _ _ _ _ hq => hq
    | _ => exact .pure h' trivial
  | .expression e =>
    exact (issues_expression h set hat hi plan).toReportsUnder
  | .returnWith pos value =>
    exact (issues_return h hset hat.1 hat.2 hi plan).toReportsUnder
  | .ifElse _ cond thenBody elseBody =>
    rw [checkItem]
    refine ifElse_reports h hat.2.1 hi.1 ?_ ?_
    · exact fun h' ha => checkBlock_reports thenBody hat.2.2.1 .block hi.2.1 h' (hset.advances ha)
    · exact fun h' ha => checkElse_reports elseBody hat.2.2.2 hi.2.2 h' (hset.advances ha)
  | .whileLoop _ cond body =>
    rw [checkItem]
    exact whileLoop_reports h hat.2.1 hi.1
      fun h' ha => checkBlock_reports body hat.2.2 .loop hi.2 h' (hset.advances ha)
  | .forEach pos var iter body =>
    rw [checkItem]
    exact forEach_reports h pos hat.2.1.pos hat.2.2.1 hi.1
      fun h' ha => checkBody_reports body hat.2.2.2 hi.2 h' (hset.advances ha)
  | .loop _ body =>
    rw [checkItem]
    exact checkBlock_reports body hat.2 .loop hi h hset
  | .breakLoop pos =>
    rw [checkItem]
    exact reporting_reports (insideLoop_ends h (.inl rfl) hat)
  | .continueLoop pos =>
    rw [checkItem]
    exact reporting_reports (insideLoop_ends h (.inr rfl) hat)
  | .matchOn _ scrutinee arms =>
    rw [checkItem]
    exact matchOn_reports h hat.2.1 hi.1 (fun t before => checkArms set t before arms)
      fun h' ha ht => checkArms_reports arms hat.2.2 hi.2 h' (hset.advances ha) ht h' (.refl _)
  | .block _ body =>
    rw [checkItem]
    exact checkBlock_reports body hat.2 .block hi h hset

/-- Items with the plans that were made for them. -/
theorem checkItems_reports (items : List Item) (hat : Item.AllPlaced A items) {s : Store}
    {set : Setting} {plans : List Plan} (hi : Item.AllFit items) (h : s.Good) (hset : set.Holds s)
    (hplans : Plan.AllStand s s.table.current plans) : Runs A s (checkItems set items plans) := by
  match items with
  | [] =>
    rw [checkItems]
    exact .pure h trivial
  | i :: rest =>
    rw [checkItems]
    obtain ⟨hplan, hplans⟩ := Plan.allStand_headD hplans
    have hitem : Runs A s (checkItem set i (some (plans.headD .none))) :=
      checkItem_reports i hat.1 hi.1 h hset (fun p hp => Option.some.inj hp ▸ hplan) fun _ => rfl
    refine hitem.bind fun _ s' h' ha _ => checkItems_reports rest hat.2 hi.2 h' (hset.mono ha) ?_
    rw [ha.current]
    exact Plan.AllStand.mono ha.advances _ hplans

theorem checkBody_reports (items : List Item) (hat : Item.AllPlaced A items) {s : Store}
    {set : Setting} (hi : Item.AllFit items) (h : s.Good) (hset : set.Holds s) :
    Runs A s (checkBody set items) := by
  match items with
  | [] =>
    rw [checkBody]
    exact .pure h trivial
  | i :: rest =>
    rw [checkBody]
    exact Reports.bind (checkItem_reports i hat.1 hi.1 h hset (by simp) fun _ => rfl)
      fun _ s' h' ha _ => checkBody_reports rest hat.2 hi.2 h' (hset.mono ha)

theorem checkBlock_reports (items : List Item) (hat : Item.AllPlaced A items)
    {P : Int → Prop} {s : Store}
    {set : Setting} (kind : ScopeKind) (hi : Item.AllFit items) (h : s.Good) (hset : set.Holds s) :
    RunsUnder A P s (checkBlock set kind items) := by
  have hd := descends_opened h kind
  match items with
  | [] =>
    rw [checkBlock]
    exact inScope_reports h kind _ (.pure hd.good trivial)
  | i :: rest =>
    rw [checkBlock]
    refine inScope_reports h kind _ ?_
    exact Reports.bind
      (checkItem_reports i hat.1 hi.1 hd.good (hset.descends hd) (by simp) fun _ => rfl)
      fun _ s' h' ha _ => checkBody_reports rest hat.2 hi.2 h' ((hset.descends hd).mono ha)

theorem checkElse_reports (body : Option (List Item)) (hat : Item.BodyPlaced A body)
    {P : Int → Prop}
    {s : Store} {set : Setting} (hi : Item.BodyFits body) (h : s.Good) (hset : set.Holds s) :
    RunsUnder A P s (checkElse set body) := by
  match body with
  | none =>
    rw [checkElse]
    exact .pure h trivial
  | some items =>
    rw [checkElse]
    exact checkBlock_reports items hat .block hi h hset

/-- The arms, each from the snapshot before the match; their ends are kept to be merged. -/
theorem checkArms_reports (arms : List Arm) (hat : Arm.AllPlaced A arms) {before s : Store}
    {set : Setting} {t : Ty} (ha : Arm.AllFit arms) (hb : before.Good) (hset : set.Holds before)
    (ht : before.Holds t) (h : s.Good) (hr : before.Reaches (fun _ => False) s) :
    EndsUnder A (fun _ => False) s (checkArms set t before.ledger.snapshot arms)
      (EndsOf before s) := by
  match arms with
  | [] =>
    rw [checkArms]
    exact (ReportsUnder.pure h (.nil before s)).toEndsUnder
  | a :: rest =>
    rw [checkArms]
    refine arms_endsUnder hb h hr ?_ ?_
    · exact fun h' hr' => checkArm_reports a hat.1 ha.1 h' (hset.mono hr') (hr'.holds ht)
    · exact fun h' hr' => checkArms_reports rest hat.2 ha.2 hb hset ht h' hr'

theorem checkArm_reports (a : Arm) (hat : a.Placed A) {P : Int → Prop} {s : Store}
    {set : Setting} {t : Ty} (ha : a.Fits) (h : s.Good) (hset : set.Holds s) (ht : s.Holds t) :
    RunsUnder A P s (checkArm set t a) := by
  match a with
  | .mk p guard body =>
    rw [checkArm]
    have hd := descends_opened h .block
    have hbody : ∀ {s' : Store}, s'.Good → (s.opened .block).After s' →
      Runs A s' (checkBody set body) :=
      fun h' hr => checkBody_reports body hat.2.2 ha.2 h' ((hset.descends hd).mono hr)
    refine inScope_reports h .block _ ?_
    refine Reports.bind (reporting_reports (pattern_ends p hat.1 hd.good ht))
      fun _ s' h' hr _ => ?_
    cases guard with
    | none => exact hbody h' hr
    | some e =>
      exact Reports.bind (reporting_reports (condition_ends h' (ha.1 e rfl) (hat.2.1 e rfl) _))
        fun _ s'' h'' hr' _ => hbody h'' (hr.trans hr')

/-- A function is checked in its own scope, with or without a plan. -/
theorem checkFunction_reports (f : Function) (hat : f.Placed A) {P : Int → Prop} {s : Store}
    {set : Setting} {self : Option Ty} {plan : Option FunctionPlan} (hf : f.Fits) (h : s.Good)
    (hself : ∀ t ∈ self, s.Holds t) (hplan : ∀ p ∈ plan, s.Plans s.table.current p) :
    RunsUnder A P s (checkFunction set self f plan) := by
  match f, plan with
  | .mk head body, none =>
    rw [checkFunction]
    exact .pure h trivial
  | .mk head body, some p =>
    rw [checkFunction]
    obtain ⟨⟨m, ho⟩, hsigns⟩ := hplan p rfl
    refine .symbol ?_
    rw [ho.members]
    refine within_reports h ho.parent _ () (fun hinside => ?_) fun _ _ _ _ hq => hq
    have hparams :
      Issues A (s.inside m) (declareParams self head p.signature.params) fun _ _ => True :=
      issues_declareParams hinside hself hat.1 hsigns.params
    refine Reports.bind hparams.toReportsUnder fun _ s' h' ha _ => ?_
    refine checkOptionalBody_reports body hat.2 hf h' fun t ht => ?_
    obtain rfl := Option.some.inj ht
    exact ha.holds hsigns.result

theorem checkOptionalBody_reports (body : Option (List Item))
    (hat : Item.BodyPlaced A body) {s : Store}
    {set : Setting} (hi : Item.BodyFits body) (h : s.Good) (hset : set.Holds s) :
    Runs A s (checkOptionalBody set body) := by
  match body with
  | none =>
    rw [checkOptionalBody]
    exact .pure h trivial
  | some items =>
    rw [checkOptionalBody]
    exact checkBody_reports items hat hi h hset

theorem checkFunctions_reports (functions : List Function) (hat : Function.AllPlaced A functions)
    {P : Int → Prop} {s : Store} {set : Setting} {self : Option Ty} {bodiesOnly : Bool}
    {plans : List (Option FunctionPlan)} (hf : Function.AllFit functions) (h : s.Good)
    (hself : ∀ t ∈ self, s.Holds t) (hplans : s.AllPlan s.table.current plans) :
    RunsUnder A P s (checkFunctions set self bodiesOnly functions plans) := by
  match functions with
  | [] =>
    rw [checkFunctions]
    exact .pure h trivial
  | f :: rest =>
    rw [checkFunctions]
    obtain ⟨hplan, hplans⟩ := allPlan_headD hplans
    have hrest : ∀ {s' : Store}, s'.Good → s.Reaches P s' →
        RunsUnder A P s' (checkFunctions set self bodiesOnly rest plans.tail) := by
      intro s' h' ha
      refine checkFunctions_reports rest hat.2 hf.2 h' (fun t ht => ha.holds (hself t ht)) ?_
      rw [ha.current]
      exact hplans.mono ha.advances
    split
    · exact (checkFunction_reports f hat.1 hf.1 h hself hplan).bind fun _ s' h' ha _ => hrest h' ha
    · exact hrest h (.refl s)

end

end

/-- An item inside a body has no plan yet. -/
theorem checkItem_alone_reports (i : Item) (hi : i.Fits) (h : s.Good) (hset : set.Holds s) :
    Runs .any s (checkItem set i none) :=
  checkItem_reports i i.placed_any hi h hset (fun _ hp => by cases hp) fun _ => rfl

end Analysis

end UnitCheck
