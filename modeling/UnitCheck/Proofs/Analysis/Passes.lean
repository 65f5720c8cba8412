import UnitCheck.Command.Run
import UnitCheck.Proofs.Analysis.Check
import UnitCheck.Proofs.Reading.Places

/-!
# Analyses run to their end

`everyPass` runs all passes on a new store, whatever they find. On a unit that was read from files
no pass can go wrong, so an analysis files just what they find (`passes_eq`), whatever the
configuration (`analysis_runs_to_its_end`). In the end the ledger has nothing left that the last
look would find (`last_look_finds_no_record`).

A unit is what `Command.loadFiles` reads: any number of files with any texts. A failed change of
scope would be among what the passes find, as a diagnostic that is not `Diagnostic.Clean`.

That nothing goes wrong takes no knowledge of the places and names of a unit. If all of them are
those of some sites, then the store is orderly in the end as well, and what is found stands at
places of these sites (`passes_eq`).
-/

namespace UnitCheck

open List

/-! ## Units from files -/

/-- The items of the files under some paths. -/
def Disk.unit (disk : Disk Id) (paths : List String) : List Item :=
  (Id.run (Command.loadFiles disk paths)).items

/-- The items of files stand in those of them that can be read. -/
theorem Disk.unit_formed {A : Sites} (disk : Disk Id) (paths : List String)
    (hA : ∀ path ∈ paths, ∀ text, Id.run (disk.look path) = some (.file text) → Covers A path) :
    Item.AllPlaced A (disk.unit paths) ∧ Item.AllFit (disk.unit paths) := by
  induction paths with
  | nil => simp [unit, Command.loadFiles]
  | cons path rest ih =>
    rw [forall_mem_cons] at hA
    have hrest := ih hA.2
    unfold unit
    rw [Command.loadFiles]
    refine (and_congr Item.allPlaced_append Item.allFit_append).mpr
      (and_and_and_comm.mp ⟨?_, hrest⟩)
    split
    · next text hlook => exact readUnit_formed (hA.1 text hlook) text
    · simp

theorem Disk.unit_fits (disk : Disk Id) (paths : List String) : Item.AllFit (disk.unit paths) :=
  (disk.unit_formed paths fun path _ _ _ => covers_any path).2

/-! ## Filing -/

namespace Report

variable {r : Report}

theorem file_withStore (c : Config) (r : Report) (d : Diagnostic) (s : Store) :
    { r with store := s }.file c d = { r.file c d with store := s } := by
  unfold file
  split_ifs <;> rfl

theorem fileAll_withStore (c : Config) (r : Report) (ds : List Diagnostic) (s : Store) :
    { r with store := s }.fileAll c ds = { r.fileAll c ds with store := s } := by
  induction ds generalizing r with
  | nil => rfl
  | cons d ds ih =>
    show ({ r with store := s }.file c d).fileAll c ds = _
    rw [file_withStore]
    exact ih _

theorem fileAll_store (c : Config) (r : Report) (ds : List Diagnostic) :
    (r.fileAll c ds).store = r.store := by
  have h : r.fileAll c ds = { r.fileAll c ds with store := r.store } :=
    fileAll_withStore c r ds r.store
  rw [h]

theorem fileAll_append (c : Config) (r : Report) (ds es : List Diagnostic) :
    r.fileAll c (ds ++ es) = (r.fileAll c ds).fileAll c es :=
  foldl_append

/-- A report without internal errors. -/
structure Sane (r : Report) : Prop where
  aborted : r.aborted = none
  errors : ∀ d ∈ r.errors, d.code ≠ .internal
  warnings : ∀ d ∈ r.warnings, d.code ≠ .internal

theorem Sane.file (h : r.Sane) (c : Config) {d : Diagnostic} (hd : d.code ≠ .internal) :
    (r.file c d).Sane := by
  have hadd : ∀ {ds : List Diagnostic}, (∀ e ∈ ds, e.code ≠ .internal) →
      ∀ e ∈ ds ++ [d], e.code ≠ .internal := by
    intro ds hds e he
    rcases mem_append.mp he with he | he
    · exact hds e he
    · rwa [mem_singleton.mp he]
  rw [Report.file, if_neg hd]
  split_ifs
  · exact ⟨h.aborted, h.errors, hadd h.warnings⟩
  · exact ⟨h.aborted, h.errors, h.warnings⟩
  · exact ⟨h.aborted, hadd h.errors, h.warnings⟩

theorem Sane.fileAll (h : r.Sane) (c : Config) {ds : List Diagnostic}
    (hds : ∀ d ∈ ds, d.code ≠ .internal) : (r.fileAll c ds).Sane := by
  induction ds generalizing r with
  | nil => exact h
  | cons d ds ih =>
    rw [forall_mem_cons] at hds
    exact ih (h.file c hds.1) hds.2

theorem Sane.promoted (h : r.Sane) (c : Config) : (r.promoted c).Sane := by
  unfold Report.promoted
  split_ifs
  · exact ⟨h.aborted, forall_mem_append.mpr ⟨h.errors, h.warnings⟩, fun d hd => by cases hd⟩
  · exact h

end Report

namespace Analysis

variable {items : List Item}

/-- The report on a store for which some diagnostics were found. -/
def filed (c : Config) (s : Store) (found : List Diagnostic) : Report :=
  Report.fileAll c { store := s } found

theorem filed_store (c : Config) (s : Store) (found : List Diagnostic) :
    (filed c s found).store = s :=
  Report.fileAll_store c _ found

theorem filed_sane (c : Config) (s : Store) {found : List Diagnostic} (h : AllClean .any found) :
    (filed c s found).Sane := by
  have hempty : ({ store := s } : Report).Sane :=
    ⟨rfl, fun d hd => (by cases hd), fun d hd => by cases hd⟩
  exact hempty.fileAll c fun d hd => (h d hd).code_ne

/-! ## One pass after the other -/

section

variable {α : Type}

/-- What a pass returns and finds, and its store in the end. -/
def ran (act : AnalysisM α) (s : Store) : (α × List Diagnostic) × Store := (act.run []).run s

/-- A pass adds what it finds to what is filed. -/
theorem pass_filed (c : Config) (s : Store) (found : List Diagnostic) (act : AnalysisM α) :
    pass c (filed c s found) act =
      ((ran act s).1.1, filed c (ran act s).2 (found ++ (ran act s).1.2)) := by
  have hreport : { filed c s found with store := (ran act s).2 } = filed c (ran act s).2 found :=
    (Report.fileAll_withStore c { store := s } found (ran act s).2).symm
  have hfiled : filed c (ran act s).2 (found ++ (ran act s).1.2) =
      (filed c (ran act s).2 found).fileAll c (ran act s).1.2 :=
    Report.fileAll_append c _ found _
  rw [hfiled, ← hreport]
  show (let ((a, found'), store) := ran act (filed c s found).store
    (a, { filed c s found with store }.fileAll c found')) = _
  rw [filed_store]

/-- A pass runs as long as nothing internal was found. -/
theorem nextPass_filed (c : Config) (fallback : α) (s : Store) {found : List Diagnostic}
    (h : AllClean .any found) (act : AnalysisM α) : nextPass c fallback (filed c s found) act =
      ((ran act s).1.1, filed c (ran act s).2 (found ++ (ran act s).1.2)) := by
  rw [← pass_filed]
  unfold nextPass
  rw [(filed_sane c s h).aborted]
  rfl

end

/-- All passes up to the last look: the store in the end and what they find. -/
def everyPass (items : List Item) : Store × List Diagnostic :=
  let collected := ran (collectItems [] items) {}
  let imported := ran (resolveImports [] false) collected.2
  let declared := ran (declareItems items collected.1.1) imported.2
  let resolved := ran (resolveImports imported.1.1 true) declared.2
  let checked := ran (checkItems {} items declared.1.1) resolved.2
  (checked.2, collected.1.2 ++ imported.1.2 ++ declared.1.2 ++ resolved.1.2 ++ checked.1.2)

/-! The passes up to the check of bodies. -/

def collected (items : List Item) : (List Sketch × List Diagnostic) × Store :=
  ran (collectItems [] items) {}

def firstRound (items : List Item) : (List (Nat × Import) × List Diagnostic) × Store :=
  ran (resolveImports [] false) (collected items).2

def declared (items : List Item) : (List Plan × List Diagnostic) × Store :=
  ran (declareItems items (collected items).1.1) (firstRound items).2

def lastRound (items : List Item) : (List (Nat × Import) × List Diagnostic) × Store :=
  ran (resolveImports (firstRound items).1.1 true) (declared items).2

/-- How things stand between two passes. -/
structure Between (A : Sites) (s : Store) (found : List Diagnostic) : Prop where
  good : s.Good
  reaches : Store.After {} s
  completes : A.Proper → Store.Completes A {} s
  found : Sited A {} found

section

variable {α : Type} {A : Sites} {s : Store} {found : List Diagnostic} {act : AnalysisM α}
  {Q : Store → α → Prop}

theorem Reports.ran_after (hact : Reports A s act Q) : s.After (ran act s).2 := hact.reaches []

theorem Reports.ran_result (hact : Reports A s act Q) :
    Q (ran act s).2 (ran act s).1.1 := hact.result []

theorem Reports.ran_found (hact : Reports A s act Q) : Sited A s (ran act s).1.2 := by
  obtain ⟨ds, hds, hsited⟩ := hact.found []
  show Sited A s ((act.run []).run s).1.2
  rwa [hds]

theorem Between.next (h : Between A s found) (hact : Reports A s act Q) :
    Between A (ran act s).2 (found ++ (ran act s).1.2) where
  good := hact.good []
  reaches := h.reaches.trans hact.ran_after
  completes hA := (h.completes hA).trans (hact.completes [] (h.completes hA).orderly)
  found := by
    refine ⟨h.found.clean.append hact.ran_found.clean, fun ho => (h.found.covered ho).append ?_⟩
    exact hact.ran_found.covered (h.completes ho.proper).orderly

end

section

variable {A : Sites} (hat : Item.AllPlaced A items)
include hat

theorem collected_reports : Reports A {} (collectItems [] items) fun s sketches =>
    Item.AllSketched s.table s.table.current items sketches :=
  (collectItems_reports [] items hat Store.good_empty fun _ => .global).toReportsUnder

theorem between_collected : Between A (collected items).2 ([] ++ (collected items).1.2) :=
  Between.next ⟨Store.good_empty, .refl _, fun hA => .refl (Store.orderly_empty hA),
    sited_of_clean allClean_nil⟩ (collected_reports hat)

theorem firstRound_reports : Reports A (collected items).2 (resolveImports [] false) fun s left =>
    ∀ e ∈ left, e.1 < s.table.scopes.size ∧ ((collected items).2.Orderly A → A.covers e.2.pos) :=
  resolveImports_reports (between_collected hat).good (by simp) false

/-- What the second pass makes of the sketches of the first. -/
theorem declared_yields :
    Yields A (fun scope => scope = (firstRound items).2.table.current) (firstRound items).2
    (declareItems items (collected items).1.1)
      (fun s plans => Plan.AllStand s s.table.current plans)
      fun _ plans => Item.AllDrafted items (collected items).1.1 → Item.AllSuit items plans := by
  have hfirst := firstRound_reports hat
  have hgood : (firstRound items).2.Good := hfirst.good []
  refine declareItems_reports items hat hgood ?_
  rw [show (firstRound items).2.table.current = _ from hfirst.ran_after.current]
  exact Item.AllSketched.grows hfirst.ran_after.table items (collected_reports hat).ran_result

theorem declared_reports :
    Reports A (firstRound items).2 (declareItems items (collected items).1.1) fun s plans =>
      Plan.AllStand s s.table.current plans :=
  (declared_yields hat).toReportsUnder

theorem left_lt : ∀ e ∈ (firstRound items).1.1, e.1 < (declared items).2.table.scopes.size :=
  fun e he => ((firstRound_reports hat).ran_result e he).1.trans_le
    (declared_reports hat).ran_after.table.scopes_le

/-- An import that is left stands at its place if the store was orderly when it was taken off its
scope. -/
theorem lastRound_reports :
    Reports A (declared items).2 (resolveImports (firstRound items).1.1 true) fun _ _ =>
    True :=
  (resolveImports_reports ((declared_reports hat).good []) (fun e he => ⟨left_lt hat e he, fun ho =>
    ((firstRound_reports hat).ran_result e he).2
    ((between_collected hat).completes ho.proper).orderly⟩) true).imp
    fun _ _ _ _ _ => trivial

theorem plans_stand :
    Plan.AllStand (lastRound items).2 (lastRound items).2.table.current (declared items).1.1 := by
  have hlast := lastRound_reports hat
  rw [show (lastRound items).2.table.current = _ from hlast.ran_after.current]
  exact Plan.AllStand.mono hlast.ran_after.advances _ (declared_reports hat).ran_result

theorem between_lastRound : Between A (lastRound items).2 ([] ++ (collected items).1.2 ++
    (firstRound items).1.2 ++ (declared items).1.2 ++ (lastRound items).1.2) :=
  (((between_collected hat).next (firstRound_reports hat)).next (declared_reports hat)).next
    (lastRound_reports hat)

/-- No pass goes wrong, and so each of them runs. -/
theorem passes_eq (hi : Item.AllFit items) (c : Config) :
    Between A (everyPass items).1 (everyPass items).2 ∧
      passes c items = filed c (everyPass items).1 (everyPass items).2 := by
  have h₁ := between_collected hat
  have h₂ := h₁.next (firstRound_reports hat)
  have h₃ := h₂.next (declared_reports hat)
  have h₄ := between_lastRound hat
  have hset : Setting.Holds {} (lastRound items).2 := fun t ht => by cases ht
  have hcheck := checkItems_reports items hat hi h₄.good hset (plans_stand hat)
  refine ⟨h₄.next hcheck, ?_⟩
  simp only [lastRound, declared, firstRound, collected] at h₁ h₂ h₃ h₄
  unfold passes
  rw [show pass c {} (collectItems [] items) = _ from pass_filed c {} [] _]
  dsimp only
  rw [nextPass_filed c [] _ h₁.found.clean]
  rw [nextPass_filed c [] _ h₂.found.clean]
  rw [nextPass_filed c [] _ h₃.found.clean]
  rw [nextPass_filed c () _ h₄.found.clean]
  rfl

end

/-! ## The last look -/

section

variable {A : Sites} {s : Store} {found : List Diagnostic}

theorem contains_symbolType (h : s.Good) {y : Symbol} (hy : y ∈ s.table.symbols) {t : Ty}
    (ht : t ∈ y.type) : s.registry.contains t = true := by
  obtain ⟨i, hi⟩ := Array.mem_iff_getElem?.mp hy
  exact h.registry.toInterned.contains_iff.mpr ((h.typed hi).holds t ht)

theorem unregistered_eq_none (h : s.Good) : unregistered s = none := by
  unfold unregistered
  rw [findSome?_eq_none_iff]
  intro y hy
  cases htype : y.type with
  | none => rfl
  | some t =>
    have hcontains := contains_symbolType h (Array.mem_toList_iff.mp hy) htype
    rw [Option.bind_some, if_pos hcontains]

/-- All records were made under the global scope, so none of them belongs to a temporary. -/
theorem Between.not_temporary (h : Between A s found) {id : Int} {a : Access}
    (ha : a ∈ s.ledger.active id) : isTemporary a.scope = false := by
  rcases h.reaches.records.mem ha with hold | hscope
  · cases hold
  · rw [hscope]
    rfl

theorem Between.validate_eq_nil (h : Between A s found) : s.ledger.validate = [] :=
  h.good.ledger.validate_eq_nil h.good.spent fun _ _ ha => h.not_temporary ha

/-- What the last look finds in a good store. -/
def lastFound (c : Config) (s : Store) : List Diagnostic :=
  if c.warnUnused then unusedWarnings s.table else []

/-- Only the end of a path counts as used. In `enum E { A }` with the value `E::A` the enumeration
is reported, though the path goes through it. -/
theorem container_reported_unused :
    let unit : List Item :=
      [.enumType ⟨⟨.unknown, ⟨"E", .unknown⟩, false⟩, [⟨⟨"A", .unknown⟩, none, false⟩]⟩,
        .expression (.path ["E", "A"] .unknown)]
    (analyze {} unit).errors = [] ∧
      (analyze {} unit).warnings.map (·.message) = ["unused enumeration \"E\""] := by
  decide +kernel

/-- Symbols are reported where they were declared. -/
theorem lastFound_sited (c : Config) (s : Store) : Sited A s (lastFound c s) := by
  unfold lastFound
  split_ifs
  · refine ⟨fun d hd => ?_, fun ho d hd => ?_⟩
    · obtain ⟨y, -, rfl⟩ := List.mem_map.mp hd
      exact Diagnostic.clean_of_code rfl trivial
    · obtain ⟨y, hy, rfl⟩ := List.mem_map.mp hd
      obtain ⟨i, hi⟩ := Array.mem_iff_getElem?.mp (Array.mem_toList_iff.mp (mem_filter.mp hy).1)
      exact Diagnostic.clean_of_code rfl (ho.symbol_pos hi)
  · exact sited_of_clean allClean_nil

theorem Between.found_last (h : Between A s found) (c : Config) :
    Sited A {} (found ++ lastFound c s) where
  clean := h.found.clean.append (lastFound_sited (A := A) c s).clean
  covered ho :=
    (h.found.covered ho).append ((lastFound_sited c s).covered (h.completes ho.proper).orderly)

/-- The last look files what it finds behind all the rest. -/
theorem Between.validated_filed (h : Between A s found) (c : Config) :
    validated c (filed c s found) = filed c s (found ++ lastFound c s) := by
  have hlooked : (if c.warnUnused then (filed c s found).fileAll c (unusedWarnings s.table)
      else filed c s found) = filed c s (found ++ lastFound c s) := by
    unfold lastFound
    split_ifs
    · exact (Report.fileAll_append c _ found _).symm
    · rw [append_nil]
  have hledger : ledgerWarnings s.ledger = [] := by
    rw [ledgerWarnings, h.validate_eq_nil]
    rfl
  unfold validated
  rw [(filed_sane c s h.found.clean).aborted, filed_store, unregistered_eq_none h.good]
  simp only [Option.isSome_none, Bool.false_eq_true, if_false, hlooked, filed_store,
    hledger, append_nil]
  split_ifs
  · exact (Report.fileAll_withStore c { store := s } _ s).symm
  · rfl

end

/-- The analysis of a fitting unit, whatever the configuration. -/
theorem analyze_eq (hi : Item.AllFit items) (c : Config) :
    analyze c items = (filed c (everyPass items).1
      ((everyPass items).2 ++ lastFound c (everyPass items).1)).promoted c := by
  obtain ⟨h, heq⟩ := passes_eq (Item.allPlaced_any items) hi c
  unfold analyze
  rw [heq, h.validated_filed c]
  dsimp only
  rw [(filed_sane c _ (h.found_last c).clean).aborted]
  rfl

theorem analyze_store (hi : Item.AllFit items) (c : Config) :
    (analyze c items).store = (everyPass items).1 := by
  have hpromoted : ∀ r : Report, (r.promoted c).store = r.store := by
    intro r
    unfold Report.promoted
    split_ifs <;> rfl
  rw [analyze_eq hi c, hpromoted, filed_store]

end Analysis

open Analysis

/-- The analysis of every fitting unit, so of every unit read from any files, runs to its end under
every configuration. Its report is what all passes and the last look find; nothing found is an
internal error, and no scope failed to be entered or left; the types of symbols are registered; the
scope in the end is the global one. -/
theorem analysis_runs_to_its_end (c : Config) :
    (∀ (disk : Disk Id) (paths : List String), Item.AllFit (disk.unit paths)) ∧
    ∀ items, Item.AllFit items →
      let r := analyze c items
      r.aborted = none ∧
      (∀ d ∈ r.errors ++ r.warnings, d.code ≠ .internal) ∧
      r.store = (everyPass items).1 ∧
      r = (filed c r.store ((everyPass items).2 ++ lastFound c r.store)).promoted c ∧
      (∀ d ∈ (everyPass items).2, d.code ≠ .internal ∧
        ∀ (fault : ScopeFault) (pos : Position), d ≠ fault.diagnostic pos) ∧
      (∀ y ∈ r.store.table.symbols, ∀ t ∈ y.type, r.store.registry.contains t = true) ∧
      r.store.table.current = 0 := by
  refine ⟨Disk.unit_fits, ?_⟩
  intro items hi r
  obtain ⟨h, -⟩ := passes_eq (Item.allPlaced_any _) hi c
  have hsane : r.Sane := by
    rw [show r = _ from analyze_eq hi c]
    exact (filed_sane c _ (h.found_last c).clean).promoted c
  have hstore : r.store = (everyPass items).1 := analyze_store hi c
  rw [hstore]
  refine ⟨hsane.aborted, List.forall_mem_append.mpr ⟨hsane.errors, hsane.warnings⟩, rfl,
    analyze_eq hi c, ?_, ?_, h.reaches.current⟩
  · exact fun d hd => ⟨(h.found.clean d hd).code_ne, (h.found.clean d hd).ne_scopeFault⟩
  · exact fun y hy t ht => contains_symbolType h.good hy ht

/-- A unit that fails: two names that are not declared, one of them in a loop. -/
def strayNames : List Item :=
  [.loop .unknown [.expression (.ident "x" .unknown)], .expression (.ident "y" .unknown)]

/-- Both names are reported, and the analysis leaves the loop. -/
theorem analysis_runs_to_its_end_stray_names :
    (analyze {} strayNames).errors.map (·.code) = [.notFound, .notFound] ∧
      (analyze {} strayNames).aborted = none ∧ (analyze {} strayNames).store.table.current = 0 := by
  have h := (analysis_runs_to_its_end {}).2 strayNames (by simp [strayNames])
  exact ⟨by decide +kernel, h.1, h.2.2.2.2.2.2⟩

/-- After the analysis of every fitting unit, so of every unit read from any files, the last look at
the ledger finds nothing: a moved variable has no records, a writing record stands alone, and no
record belongs to a temporary. -/
theorem last_look_finds_no_record (c : Config) :
    (∀ (disk : Disk Id) (paths : List String), Item.AllFit (disk.unit paths)) ∧
    ∀ items, Item.AllFit items →
      let l := (analyze c items).store.ledger
      l.validate = [] ∧
      ∀ id h, l.get? id = some h → (h.isMoved = true → h.active = []) ∧
        (∀ a ∈ h.active, a.kind.isExclusive = true → h.active = [a]) ∧
        ∀ a ∈ h.active, isTemporary a.scope = false := by
  refine ⟨Disk.unit_fits, ?_⟩
  intro items hi l
  obtain ⟨h, -⟩ := passes_eq (Item.allPlaced_any _) hi c
  have hl : l = (everyPass items).1.ledger := congrArg Store.ledger (analyze_store hi c)
  rw [hl]
  refine ⟨h.validate_eq_nil,
    fun id x hx => ⟨h.good.spent id x hx, fun a ha hex => ?_, fun a ha => ?_⟩⟩
  · rcases h.good.ledger.shared _ (Ledger.mem_of_get? hx) with hread | ⟨b, hb⟩
    · rw [hread a ha] at hex
      cases hex
    · rw [hb] at ha ⊢
      rw [List.mem_singleton.mp ha]
  · exact h.not_temporary (by rwa [Ledger.active_of_get? hx])

/-- A variable of the unit and a reference to it that is kept. -/
def keptReference : List Item :=
  [.letVar ⟨.unknown, ⟨"a", .unknown⟩, none, some (.literal (.int 1) .unknown), true⟩,
    .letVar ⟨.unknown, ⟨"r", .unknown⟩, none,
    some (.unary .ampMut (.ident "a" .unknown) .unknown), false⟩]

/-- The record of the reference is there to the end, and is no fault. -/
theorem last_look_finds_no_record_kept_reference :
    ((analyze {} keptReference).store.ledger.active 0).map (·.kind) = [.borrowMutably] ∧
      (analyze {} keptReference).store.ledger.validate = [] :=
  ⟨by decide +kernel, ((last_look_finds_no_record {}).2 keptReference
    (by simp [keptReference, Operator.unary])).1⟩

/-! ## The order of items -/

namespace Analysis

/-- A structure without type parameters. -/
def plainStruct (name : String) (fields : List FieldDecl) : Item :=
  .structType ⟨⟨.unknown, ⟨name, .unknown⟩, false⟩, [], fields⟩

/-- A structure `S` with a field of type `A`. -/
def holder : Item := plainStruct "S" [⟨⟨"b", .unknown⟩, .named ["A"] [] .unknown, false⟩]

/-- An implementation of `S` with one method. -/
def method (name : String) : Item :=
  .implementation ⟨.unknown, none, .named ["S"] [] .unknown⟩
    [.mk ⟨⟨.unknown, ⟨name, .unknown⟩, false⟩, [], [], none⟩ (some [])]

def methodLast : List Item := [plainStruct "A" [], holder, method "A"]

def methodFirst : List Item := [plainStruct "A" [], method "A", holder]

/-- A method with the name of a type takes its place among the members of the structure, so that a
field that is declared later does not find the type. -/
theorem items_depend_on_order : methodLast.Perm methodFirst ∧ (analyze {} methodLast).errors = [] ∧
      (analyze {} methodFirst).errors.map (·.code) = [.invalidType] :=
  ⟨.cons _ (.swap ..), by decide +kernel⟩

end Analysis

end UnitCheck
