import UnitCheck.Reading.Items

/-!
# Reading units

A unit is the list of items in the first document of a text. Readers go to a given depth, where a
node counts as deeper than the collection or the alias that it is reached through. Each collection
and each alias takes a character of the text, so no node is deeper than the text is long.
-/

namespace UnitCheck

open Markup

namespace Reading

def readersTo (depth : Nat) : Readers :=
  { expr := expr depth, pattern := pattern depth, item := item depth }

def root (depth : Nat) (n : Node) : ReadM (List Item) := do
  match n with
  | .sequence .. => body (readersTo depth) (some n)
  | _ =>
    report n "a unit must be a list of items"
    return []

end Reading

/-- The items of the root of a document, read to the given depth, with the faults met in it. -/
def unitOfNode (depth : Nat) (file : String) (n : Node) : List Item × List UnitFault :=
  ((Reading.root depth n).run file).run []

/-- Reads a unit: its items and the faults met in it. Positions name the file. A text that is not
well formed is one fault at its start. -/
def readUnit (file text : String) : List Item × List UnitFault :=
  match readDocument? text with
  | none => ([], [⟨⟨file, 1, 1⟩, "yaml: syntax error"⟩])
  | some none => ([], [])
  | some (some n) => unitOfNode (text.length + 1) file n

end UnitCheck
