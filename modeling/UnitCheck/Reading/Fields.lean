import UnitCheck.Markup.Node
import UnitCheck.Source.Position
import UnitCheck.Text.Quoted

/-!
# Reading nodes

The parts that all readers of a unit share. A reader notes every fault it meets and goes on; what it
returns is `none` when the node at hand cannot be used. The keys of a mapping are looked up by name,
a key that is given twice is reported and keeps its first value, and once a construct has been read
the keys that it does not know are reported.
-/

namespace UnitCheck

open Markup

/-- A fault in a unit's text. -/
structure UnitFault where
  pos : Position
  message : String
  deriving Repr, DecidableEq, Inhabited

def UnitFault.text (f : UnitFault) : String := s!"{f.pos.text}: {f.message}"

namespace Reading

/-- Readers know the file's name and collect faults in the order in which they are met. -/
abbrev ReadM := ReaderT String (StateM (List UnitFault))

def positionOf (n : Node) : ReadM Position := do
  let file ← read
  return ⟨file, n.mark.line + 1, n.mark.column + 1⟩

def report (n : Node) (message : String) : ReadM Unit := do
  let pos ← positionOf n
  modify fun faults => faults ++ [⟨pos, message⟩]

def fail {α : Type} (n : Node) (message : String) : ReadM (Option α) := do
  report n message
  return none

def optional {α : Type} (reader : Node → ReadM (Option α)) : Option Node → ReadM (Option (Option α))
  | none => return some none
  | some n => do return (← reader n).map some

/-- Reads every node of a list, and returns nothing if one of them fails. -/
def collect {α β : Type} (reader : α → ReadM (Option β)) : List α → ReadM (Option (List β))
  | [] => return some []
  | n :: rest => do
    let first ← reader n
    let others ← collect reader rest
    return do
      let x ← first
      let xs ← others
      some (x :: xs)

/-! ## Mappings -/

/-- A mapping with the first entry of every key. -/
structure Fields where
  node : Node
  entries : List (Node × Node)

/-- The entries whose key has not been seen; the others are reported. -/
def distinctEntries : (seen : List String) → List (Node × Node) → ReadM (List (Node × Node))
  | _, [] => return []
  | seen, (key, value) :: rest => do
    if seen.contains key.text then
      report key ("duplicate key " ++ Text.quoted key.text)
      distinctEntries seen rest
    else
      let others ← distinctEntries (key.text :: seen) rest
      return (key, value) :: others

def fields (n : Node) (entries : List (Node × Node)) : ReadM Fields := do
  return ⟨n, ← distinctEntries [] entries⟩

namespace Fields

def get (m : Fields) (key : String) : Option Node := (m.entries.find? (·.1.text == key)).map (·.2)

def firstKey? (m : Fields) (keys : List String) : Option String := keys.find? fun key =>
  (m.get key).isSome

def keyPos (m : Fields) (key : String) : ReadM Position :=
  positionOf (match m.entries.find? (·.1.text == key) with
    | some (k, _) => k
    | none => m.node)

end Fields

/-- Reports the keys that a construct does not know; whether there were none. -/
def finish (m : Fields) (what : String) (known : List String) : ReadM Bool := do
  let unknown := m.entries.filter fun (key, _) => !known.contains key.text
  unknown.forM fun (key, _) =>
    report key ("unknown key " ++ Text.quoted key.text ++ " in " ++ what)
  return unknown.isEmpty

end Reading

end UnitCheck
