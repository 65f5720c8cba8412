import UnitCheck.Proofs.Analysis.Filing

/-!
# Diagnostics and the places they stand at

All passes keep the store orderly and log at places of the unit, and the last look reports symbols
where they were declared (`Between.found_last`). What an analysis files is among what it found, so
every error and warning stands at a place of the unit (`diagnostics_stand_in_their_files`).

Faults of the registry and of the table begin with no place. None of them comes through without one:
a place that is not known is not covered by sites that ask for a line.
-/

namespace UnitCheck

open Checking Markup List

namespace Analysis

variable {items : List Item}

/-- Nothing is reported that was not found. -/
theorem mem_allFound_of_mem_analyze (hfit : Item.AllFit items) {c : Config} {d : Diagnostic}
    (hd : d ∈ (analyze c items).errors ++ (analyze c items).warnings) : d ∈ allFound c items := by
  have hkept : ∀ {ds : List Diagnostic}, d ∈ c.kept ds → d ∈ ds := by
    intro ds hmem
    unfold Config.kept at hmem
    split_ifs at hmem
    · exact mem_of_mem_take hmem
    · exact hmem
  have hreport : d ∈ c.kept (Diagnostic.errorsOf (allFound c items)) ++
      Diagnostic.warningsOf (allFound c items) := by
    rw [analyze_eq_kept hfit c] at hd
    -- warnings may have been turned into errors: the whole of the two lists is the same
    unfold Report.promoted keptReport at hd
    split_ifs at hd
    · rwa [append_nil] at hd
    · exact hd
  rcases mem_append.mp hreport with hmem | hmem
  · exact (mem_filter.mp (hkept hmem)).1
  · exact (mem_filter.mp hmem).1

theorem analyze_covered {A : Sites} (hA : A.Proper) (hat : Item.AllPlaced A items)
    (hfit : Item.AllFit items) (c : Config) :
    ∀ d ∈ (analyze c items).errors ++ (analyze c items).warnings, A.covers d.pos := by
  intro d hd
  obtain ⟨h, -⟩ := passes_eq hat hfit c
  have hall := (h.found_last c).covered (Store.orderly_empty hA)
  exact (hall d (mem_allFound_of_mem_analyze hfit hd)).covered

end Analysis

open Analysis

/-- Every error and warning about a unit has a valid position that names the file that it was read
from: the file of a document, whatever its nodes are, and one of the files that could be read for a
unit of any number of files. In particular none has the unknown position. -/
theorem diagnostics_stand_in_their_files (c : Config) : (∀ (depth : Nat) (file : String) (n : Node),
      let r := analyze c (unitOfNode depth file n).1
      ∀ d ∈ r.errors ++ r.warnings, d.pos.isValid = true ∧ d.pos.file = file) ∧
    ∀ (disk : Disk Id) (paths : List String),
      let r := analyze c (disk.unit paths)
      ∀ d ∈ r.errors ++ r.warnings, d.pos.isValid = true ∧ d.pos.file ∈ paths ∧
        ∃ text, Id.run (disk.look d.pos.file) = some (.file text) := by
  constructor
  · intro depth file n
    have hcovers : Covers (.named fun p => p.isValid = true ∧ p.file = file) file :=
      ⟨fun line column hline => ⟨decide_eq_true hline, rfl⟩, fun _ h => h⟩
    obtain ⟨hplaced, hfit⟩ := unitOfNode_formed hcovers depth n
    exact analyze_covered (fun _ h => h) hplaced hfit c
  · intro disk paths
    have hplaced : Item.AllPlaced (.named fun p : Position => p.isValid = true ∧ p.file ∈ paths ∧
        ∃ text, Id.run (disk.look p.file) = some (.file text)) (disk.unit paths) := by
      refine (disk.unit_formed paths fun path hpath text hlook => ?_).1
      exact ⟨fun line column hline => ⟨decide_eq_true hline, hpath, text, hlook⟩, fun _ h => h⟩
    exact analyze_covered (fun _ h => h) hplaced (disk.unit_fits paths) c

/-- A word of a document. -/
def word (line column : Nat) (text : String) : Node := .scalar ⟨line, column, 0⟩ .plain "!!str" text

/-- A document that matches `true` with a pair, which has two wildcards in the third line. -/
def mismatchedPair : Node :=
  let pair : Node := .sequence ⟨2, 13, 0⟩ "!!seq" [word 2 14 "_", word 2 17 "_"]
  let arm : Node := .mapping ⟨2, 4, 0⟩ "!!map" [(word 2 4 "pattern", pair)]
  .sequence ⟨0, 0, 0⟩ "!!seq" [.mapping ⟨0, 2, 0⟩ "!!map"
    [(word 0 2 "match", .scalar ⟨0, 9, 0⟩ .plain tagBool "true"),
      (word 1 2 "arms", .sequence ⟨2, 2, 0⟩ "!!seq" [arm])]]

/-- The one error stands at the pair, which is no pattern for a boolean. -/
theorem diagnostics_stand_in_their_files_pair :
    let r := analyze {} (unitOfNode 5 "pair.yaml" mismatchedPair).1
    r.errors.map (·.pos) = [⟨"pair.yaml", 3, 14⟩] ∧
      ∀ d ∈ r.errors ++ r.warnings, d.pos.isValid = true ∧ d.pos.file = "pair.yaml" :=
  ⟨by decide +kernel, (diagnostics_stand_in_their_files {}).1 5 "pair.yaml" mismatchedPair⟩

end UnitCheck
