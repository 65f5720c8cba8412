/-!
# Similar names

The edit distance between two texts (insertions, deletions and replacements of one character), and
the choice of a name to suggest for one that was not found.
-/

namespace UnitCheck.Text

/-- One row of the distance table from the row above it. `left` is the entry to the left and
`diagonal` the one above `left`. -/
def distanceRow (c : Char) : (ys : List Char) → (above : List Nat) →
      (left diagonal : Nat) → List Nat
  | y :: ys, up :: above, left, diagonal =>
    let here := min (min (left + 1) (up + 1)) (if c = y then diagonal else diagonal + 1)
    here :: distanceRow c ys above here up
  | _, _, _, _ => []

/-- The row that follows `row` when the character `c` is added to the first text. -/
def nextRow (c : Char) (ys : List Char) : List Nat → List Nat
  | [] => []
  | first :: above => (first + 1) :: distanceRow c ys above (first + 1) first

def distance (s t : String) : Nat :=
  let ys := t.toList
  let first := List.range (ys.length + 1)
  (s.toList.foldl (fun row c => nextRow c ys row) first).getLastD 0

/-- Among `names`, the first of the nearest to `name`, other than `name` itself: at most two edits
away, and at most one when `name` has no more than three bytes. The empty name is no suggestion,
even where it is the nearest. -/
def nearest? (names : List String) (name : String) : Option String :=
  let limit := if name.utf8ByteSize ≤ 3 then 1 else 2
  let step (best : Option String × Nat) (candidate : String) : Option String × Nat :=
    let d := distance name candidate
    if 0 < d ∧ d < best.2 then (some candidate, d) else best
  (names.foldl step (none, limit + 1)).1.filter (· ≠ "")

end UnitCheck.Text
