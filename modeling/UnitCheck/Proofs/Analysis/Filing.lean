import UnitCheck.Proofs.Analysis.Passes

/-!
# What the configuration decides

The passes run without a look at the configuration: it only decides what is kept of what they find.
`filed_eq` says what that is. Errors are kept up to the limit, and those left out are counted;
warnings are kept all. From this two analyses of one unit under different configurations can be
compared (`configuration_only_filters`).
-/

namespace UnitCheck

open List

/-- The part of the errors that a configuration keeps. -/
def Config.kept (c : Config) (errors : List Diagnostic) : List Diagnostic :=
  if 0 < c.maxErrors then errors.take c.maxErrors.toNat else errors

theorem Config.kept_append_singleton (c : Config) (errors : List Diagnostic) (d : Diagnostic) :
    c.kept (errors ++ [d]) = if 0 < c.maxErrors ∧ c.maxErrors ≤ (c.kept errors).length
      then c.kept errors
      else c.kept errors ++ [d] := by
  unfold kept
  by_cases hlimit : 0 < c.maxErrors
  · simp only [hlimit, if_true, true_and, length_take]
    by_cases hfull : c.maxErrors.toNat ≤ errors.length
    · rw [if_pos (by omega), take_append_of_le_length hfull]
    · rw [if_neg (by omega), take_of_length_le (by simp; omega), take_of_length_le (by omega)]
  · simp [hlimit]

theorem Config.kept_eq_nil (c : Config) {errors : List Diagnostic} : c.kept errors = [] ↔
      errors = [] := by
  unfold kept
  split_ifs
  · rw [take_eq_nil_iff]
    exact or_iff_right (by omega)
  · rfl

namespace Diagnostic

/-- The errors among diagnostics. -/
def errorsOf (ds : List Diagnostic) : List Diagnostic := ds.filter fun d => !d.isWarning

def warningsOf (ds : List Diagnostic) : List Diagnostic := ds.filter (·.isWarning)

theorem errorsOf_append (ds es : List Diagnostic) :
    errorsOf (ds ++ es) = errorsOf ds ++ errorsOf es :=
  filter_append ..

variable {ds : List Diagnostic}

theorem errorsOf_warnings (h : ∀ d ∈ ds, d.isWarning = true) : errorsOf ds = [] :=
  filter_eq_nil_iff.mpr fun d hd => by simp [h d hd]

theorem errorsOf_warningsOf (ds : List Diagnostic) : errorsOf (warningsOf ds) = [] :=
  errorsOf_warnings fun _ hd => (mem_filter.mp hd).2

theorem errorsOf_errors (h : ∀ d ∈ ds, d.isWarning = false) : errorsOf ds = ds :=
  filter_eq_self.mpr fun d hd => by simp [h d hd]

/-- What is kept of errors are errors. -/
theorem errorsOf_kept (c : Config) (ds : List Diagnostic) :
    errorsOf (c.kept (errorsOf ds)) = c.kept (errorsOf ds) := by
  refine errorsOf_errors fun d hd => ?_
  have hmem : d ∈ errorsOf ds := by
    unfold Config.kept at hd
    split_ifs at hd
    · exact mem_of_mem_take hd
    · exact hd
  simpa using (mem_filter.mp hmem).2

end Diagnostic

open Diagnostic

namespace Analysis

/-- The report on what was found when nothing internal is among it. -/
def keptReport (c : Config) (s : Store) (found : List Diagnostic) : Report where
  store := s
  errors := c.kept (errorsOf found)
  warnings := warningsOf found
  truncated := (errorsOf found).length - (c.kept (errorsOf found)).length

/-- Filing one more diagnostic. -/
theorem keptReport_file (c : Config) (s : Store) (found : List Diagnostic) {d : Diagnostic}
    (hd : d.code ≠ .internal) :
    (keptReport c s found).file c d = keptReport c s (found ++ [d]) := by
  rw [Report.file, if_neg hd]
  unfold keptReport
  cases hwarn : d.isWarning with
  | true => simp [errorsOf, warningsOf, hwarn]
  | false =>
    have herrors : errorsOf (found ++ [d]) = errorsOf found ++ [d] := by simp [errorsOf, hwarn]
    have hwarnings : warningsOf (found ++ [d]) = warningsOf found := by simp [warningsOf, hwarn]
    have hle : (c.kept (errorsOf found)).length ≤ (errorsOf found).length := by
      unfold Config.kept
      split_ifs <;> simp
    rw [herrors, hwarnings, c.kept_append_singleton]
    simp only [Bool.false_eq_true, if_false]
    split_ifs
    · simp only [length_append, length_singleton]
      congr 1
      omega
    · simp

/-- What is kept of the diagnostics does not depend on when they were filed. -/
theorem filed_eq (c : Config) (s : Store) {found : List Diagnostic} (h : AllClean .any found) :
    filed c s found = keptReport c s found := by
  -- diagnostics are filed in the order in which they were found, so the last one is added to the
  -- rest
  induction found using reverseRecOn with
  | nil => simp [filed, Report.fileAll, keptReport, errorsOf, warningsOf, Config.kept]
  | append_singleton found d ih =>
    have hd : d.code ≠ .internal := (h d (by simp)).code_ne
    have hfound : AllClean .any found := fun e he => h e (mem_append_left _ he)
    rw [← keptReport_file c s found hd, ← ih hfound]
    exact Report.fileAll_append c _ found [d]

/-- All that an analysis finds. -/
def allFound (c : Config) (items : List Item) : List Diagnostic :=
  (everyPass items).2 ++ lastFound c (everyPass items).1

theorem analyze_eq_kept {items : List Item} (hi : Item.AllFit items) (c : Config) :
    analyze c items = (keptReport c (everyPass items).1 (allFound c items)).promoted c := by
  obtain ⟨h, -⟩ := passes_eq (Item.allPlaced_any _) hi c
  rw [analyze_eq hi c, filed_eq c _ (h.found_last c).clean]
  rfl

/-- The last look adds no errors. -/
theorem errorsOf_allFound (c : Config) (items : List Item) :
    errorsOf (allFound c items) = errorsOf (everyPass items).2 := by
  have hlast : errorsOf (lastFound c (everyPass items).1) = [] := by
    refine errorsOf_warnings fun d hd => ?_
    unfold lastFound at hd
    split_ifs at hd
    · obtain ⟨y, -, rfl⟩ := List.mem_map.mp hd
      rfl
    · cases hd
  rw [allFound, errorsOf_append, hlast, append_nil]

section

variable {items : List Item} (hi : Item.AllFit items) {c : Config}

include hi

theorem analyze_promoting (hc : c.warningsAsErrors = true) : (analyze c items).errors =
        c.kept (errorsOf (everyPass items).2) ++ warningsOf (allFound c items) ∧
      (analyze c items).warnings = [] := by
  rw [analyze_eq_kept hi c, Report.promoted, if_pos hc, ← errorsOf_allFound c items]
  exact ⟨rfl, rfl⟩

theorem analyze_keeping (hc : c.warningsAsErrors = false) :
    analyze c items = keptReport c (everyPass items).1 (allFound c items) := by
  rw [analyze_eq_kept hi c, Report.promoted, if_neg (by simp [hc])]

theorem errors_analyze (hc : c.warningsAsErrors = false) :
    (analyze c items).errors = c.kept (errorsOf (everyPass items).2) := by
  rw [analyze_keeping hi hc, ← errorsOf_allFound c items]
  rfl

/-- Without the warnings that count as errors. -/
theorem errorsOf_analyze (c : Config) :
    errorsOf (analyze c items).errors = c.kept (errorsOf (everyPass items).2) := by
  cases hc : c.warningsAsErrors with
  | false => rw [errors_analyze hi hc, errorsOf_kept]
  | true =>
    rw [(analyze_promoting hi hc).1, errorsOf_append, errorsOf_kept,
      errorsOf_warningsOf, append_nil]

/-- A unit fails if there is an error, or a warning that counts as one. -/
theorem failure_analyze (c : Config) : (analyze c items).failure = [] ↔
      errorsOf (everyPass items).2 = [] ∧
      (c.warningsAsErrors = true → warningsOf (allFound c items) = []) := by
  have haborted : (analyze c items).aborted = none := by
    obtain ⟨h, -⟩ := passes_eq (Item.allPlaced_any _) hi c
    rw [analyze_eq hi c]
    exact ((filed_sane c _ (h.found_last c).clean).promoted c).aborted
  have hfailure : (analyze c items).failure = [] ↔ (analyze c items).errors = [] := by
    rw [Report.failure, haborted]
    exact map_eq_nil_iff
  rw [hfailure]
  cases hc : c.warningsAsErrors with
  | false => simp [errors_analyze hi hc, c.kept_eq_nil]
  | true => simp [(analyze_promoting hi hc).1, c.kept_eq_nil]

end

end Analysis

open Analysis

/-- **The configuration only filters what is reported.** Take any fitting unit, so any unit that was
read from files.

* Under a limit of `k + 1` errors the store and the warnings are those of the run without a limit,
  the errors are the first `k + 1` of its errors, and the others are counted.
* Whether unused symbols and records are looked at makes no difference to the errors; where warnings
  count as errors, they come in addition.
* Where warnings count as errors, they follow the errors, and no warnings are left.
* Under a limit just the units fail that fail without one. -/
theorem configuration_only_filters (c : Config) (k : Nat) :
    (∀ (disk : Disk Id) (paths : List String), Item.AllFit (disk.unit paths)) ∧
    ∀ items, Item.AllFit items →
      let run (c : Config) : Report := analyze c items
      let plain : Config := { c with warningsAsErrors := false }
      let full := run { plain with maxErrors := 0 }
      let capped := run { plain with maxErrors := k + 1 }
      (capped.store = full.store ∧ capped.warnings = full.warnings ∧
        capped.errors = full.errors.take (k + 1) ∧
        capped.truncated = full.errors.length - (k + 1)) ∧
      (∀ unused borrows : Bool,
        (run { plain with warnUnused := unused, advisoryBorrows := borrows }).errors =
          (run plain).errors ∧
        errorsOf (run { c with warnUnused := unused, advisoryBorrows := borrows }).errors =
          errorsOf (run c).errors) ∧
      ((run { c with warningsAsErrors := true }).errors =
          (run plain).errors ++ (run plain).warnings ∧
        (run { c with warningsAsErrors := true }).warnings = []) ∧
      ((run { c with maxErrors := k + 1 }).failure = [] ↔
        (run { c with maxErrors := 0 }).failure = []) := by
  refine ⟨Disk.unit_fits, ?_⟩
  intro items hi run plain full capped
  have hfull : full = keptReport { plain with maxErrors := 0 } _ _ := analyze_keeping hi rfl
  have hcapped : capped = keptReport { plain with maxErrors := k + 1 } _ _ := analyze_keeping hi rfl
  -- a limit of at least one cuts the errors off; zero would keep all of them
  have hlimit : ∀ es, ({ plain with maxErrors := k + 1 } : Config).kept es = es.take (k + 1) := by
    intro es
    exact if_pos (by show (0 : Int) < (k : Int) + 1; omega)
  refine ⟨?_, fun unused borrows => ⟨?_, ?_⟩, ?_, ?_⟩
  · -- the two runs find the same, since the limit is not looked at before the end
    rw [hfull, hcapped]
    refine ⟨rfl, rfl, hlimit _, ?_⟩
    have hcount : (keptReport { plain with maxErrors := k + 1 } (everyPass items).1
        (allFound plain items)).truncated =
        (errorsOf (allFound plain items)).length -
          (({ plain with maxErrors := k + 1 } : Config).kept
            (errorsOf (allFound plain items))).length := rfl
    refine hcount.trans ?_
    rw [hlimit, List.length_take]
    show _ = (errorsOf (allFound plain items)).length - (k + 1)
    omega
  · exact (errors_analyze hi rfl).trans (errors_analyze hi (c := plain) rfl).symm
  · exact (errorsOf_analyze hi _).trans (errorsOf_analyze hi c).symm
  · have hpromoting := analyze_promoting hi (c := { c with warningsAsErrors := true }) rfl
    refine ⟨?_, hpromoting.2⟩
    rw [hpromoting.1, show run plain = _ from analyze_keeping hi rfl, ← errorsOf_allFound plain]
    rfl
  · exact (failure_analyze hi _).trans (failure_analyze hi { c with maxErrors := 0 }).symm

/-- Of two errors one is kept, and the other one is counted. -/
theorem configuration_only_filters_one_of_two :
    (analyze {} strayNames).errors.length = 2 ∧
      (analyze { maxErrors := 1 } strayNames).errors = (analyze {} strayNames).errors.take 1 ∧
      (analyze { maxErrors := 1 } strayNames).truncated = 1 := by
  have h := ((configuration_only_filters {} 0).2 strayNames (by simp [strayNames])).1
  have htwo : (analyze {} strayNames).errors.length = 2 := by decide +kernel
  exact ⟨htwo, h.2.2.1,
    h.2.2.2.trans (by show (analyze {} strayNames).errors.length - 1 = 1; omega)⟩

end UnitCheck
