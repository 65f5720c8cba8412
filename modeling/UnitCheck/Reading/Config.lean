import UnitCheck.Analysis.Config
import UnitCheck.Markup.Document
import UnitCheck.Text.Quoted

/-!
# Reading configurations

A configuration is a mapping with a key for every setting. Settings that are missing or null keep
their defaults. Everything that does not fit is reported, one line each; keys that come twice are
reported instead of reading the mapping. A merge key takes over the settings of other mappings that
are not given in the mapping itself. A text that consists nearly only of what aliases repeat is
refused.
-/

namespace UnitCheck

open Markup

inductive ConfigFault where
  | malformed
  | mismatches (lines : List String)
  | negativeLimit (limit : Int)
  deriving Repr, DecidableEq, Inhabited

def ConfigFault.message : ConfigFault → String
  | malformed => "decode config: yaml: syntax error"
  | mismatches lines => "decode config: yaml: unmarshal errors:\n  " ++ "\n  ".intercalate lines
  | negativeLimit limit => s!"max_errors must not be negative, got {limit}"

namespace ConfigReading

/-- The settings read so far, and the lines that report what does not fit. -/
structure Draft where
  config : Config := {}
  lines : List String := []
  /-- How many nodes have been read, and how many of them inside of aliases. -/
  nodes : Nat := 0
  repeated : Nat := 0
  /-- The number of aliases around the node that is being read. -/
  depth : Nat := 0
  deriving Inhabited

abbrev ConfigM := ExceptT ConfigFault (StateM Draft)

def report (n : Node) (message : String) : ConfigM Unit :=
  modify fun d => { d with lines := d.lines ++ [s!"line {n.mark.line + 1}: {message}"] }

/-- As many characters as fit into `n` bytes; a cut character leaves a mark for every byte. -/
def clip : (n : Nat) → List Char → List Char
  | _, [] => []
  | n, c :: rest =>
    if c.utf8Size ≤ n then c :: clip (n - c.utf8Size) rest
    else List.replicate n '\ufffd'

/-- A text of at most ten bytes, or its first seven. -/
def shortened (s : String) : String :=
  if s.utf8ByteSize ≤ 10 then s else String.ofList (clip 7 s.toList) ++ "..."

def mismatch (n : Node) (type : String) : ConfigM Unit :=
  let tag := match n with
    | .scalar _ _ tag _ => tag
    | .sequence _ tag _ => tag
    | .mapping _ tag _ => tag
    | .reference .. => ""
  let value := if tag = tagSequence ∨ tag = tagMapping then n.text
    else " \x60" ++ shortened n.text ++ "\x60"
  report n s!"cannot unmarshal {tag}{value} into {type}"

/-- Whether two keys are of one kind and have one text. -/
def sameKey : Node → Node → Bool
  | .scalar _ _ _ a, .scalar _ _ _ b => a == b
  | .reference _ a _, .reference _ b _ => a == b
  | .sequence .., .sequence .. => true
  | .mapping .., .mapping .. => true
  | _, _ => false

/-- Reports keys that come twice; whether there were none. -/
def distinctKeys : List (Node × Node) → ConfigM Bool
  | [] => return true
  | (key, _) :: rest => do
    let same := rest.filter fun (other, _) => sameKey key other
    same.forM fun (other, _) =>
      report other ("mapping key " ++ Text.quoted other.text ++
          s!" already defined at line {key.mark.line + 1}")
    let others ← distinctKeys rest
    return same.isEmpty && others

/-- What a tagged scalar stands for. A text that does not fit its tag makes the whole text
unreadable. -/
def scalarValue (tag text : String) : ConfigM ScalarValue :=
  match taggedValue? tag text with
  | some v => return v
  | none => throw .malformed

/-- The share of nodes that may come from aliases, when so many nodes have been read. -/
def allowedShare (nodes : Nat) : Float :=
  if nodes ≤ 400000 then 0.99
  else if 4000000 ≤ nodes then 0.10
  else 0.99 - 0.89 * ((Float.ofNat nodes - 400000) / 3600000)

def visit : ConfigM Unit := do
  let d ← get
  let nodes := d.nodes + 1
  let repeated := if d.depth = 0 then d.repeated else d.repeated + 1
  if 100 < repeated ∧ 1000 < nodes ∧
    allowedShare nodes < Float.ofNat repeated / Float.ofNat nodes then
    throw .malformed
  set { d with nodes, repeated }

def follow (read : Node → ConfigM α) : Node → ConfigM α
  | .reference _ _ (some n) => do
    visit
    modify fun d => { d with depth := d.depth + 1 }
    let a ← follow read n
    modify fun d => { d with depth := d.depth - 1 }
    return a
  | .reference _ _ none => throw .malformed
  | n => do
    visit
    read n

/-- Reads a truth value; nothing when it is null or does not fit. -/
def readBool : Node → ConfigM (Option Bool) :=
  follow fun n => do
    let failed : ConfigM (Option Bool) := do
      mismatch n "bool"
      return none
    match n with
    | .scalar _ _ tag text =>
      match ← scalarValue tag text with
      | .null => return none
      | .bool b => return some b
      | .text s =>
        match wordBool? s with
        | some b => return some b
        | none => failed
      | _ => failed
    | .mapping _ _ entries => if ← distinctKeys entries then failed else return none
    | _ => failed

/-- The integer part of a real; what is out of range is the least integer. -/
def integerPart (x : Float) : Int :=
  if x < 9223372036854775808.0 ∧ -9223372036854775808.0 < x then x.toInt64.toInt
  else -(Nat.pow 2 63 : Nat)

/-- Reads an integer; nothing when it is null or does not fit. -/
def readInt : Node → ConfigM (Option Int) :=
  follow fun n => do
    let failed : ConfigM (Option Int) := do
      mismatch n "int"
      return none
    match n with
    | .scalar _ _ tag text =>
      match ← scalarValue tag text with
      | .null => return none
      | .int i => if i < Nat.pow 2 63 then return some i else failed
      | .real x => if x ≤ 9223372036854775808.0 then return some (integerPart x) else failed
      | _ => failed
    | .mapping _ _ entries => if ← distinctKeys entries then failed else return none
    | _ => failed

def setting (f : Config → Config) : ConfigM Unit := modify fun d => { d with config := f d.config }

def readSetting (key : Node) (name : String) (value : Node) : ConfigM Unit := do
  match name with
  | "warn_unused" =>
    if let some b ← readBool value then setting fun c => { c with warnUnused := b }
  | "advisory_borrows" =>
    if let some b ← readBool value then setting fun c => { c with advisoryBorrows := b }
  | "max_errors" =>
    if let some i ← readInt value then setting fun c => { c with maxErrors := i }
  | "warnings_as_errors" =>
    if let some b ← readBool value then setting fun c => { c with warningsAsErrors := b }
  | name => report key s!"field {name} not found in type semantic.Config"

def isSetting (name : String) : Bool :=
  ["warn_unused", "advisory_borrows", "max_errors", "warnings_as_errors"].contains name

/-- The text of a key; nothing when it is null or does not fit. -/
def keyName : Node → ConfigM (Option String) :=
  follow fun n => do
    match n with
    | .scalar _ _ tag text =>
      match ← scalarValue tag text with
      | .null => return none
      | .text s => return some s
      | _ => return some text
    | .mapping _ _ entries =>
      if ← distinctKeys entries then mismatch n "string"
      return none
    | _ =>
      mismatch n "string"
      return none

def isMergeKey : Node → Bool
  | .scalar _ _ tag text => text == "<<" && tag == tagMerge
  | _ => false

/-- Reads settings. `given` holds the keys that count already, when the mapping is merged into
another one, and `done` those of the mapping itself. Returns the keys that count from then on. -/
def readEntries : (given : Option (List String)) → (done : List String) → List (Node × Node) →
    ConfigM (Option (List String))
  | given, _, [] => return given
  | given, done, (key, value) :: rest => do
    if isMergeKey key then return ← readEntries given done rest
    match ← keyName key with
    | none => readEntries given done rest
    | some name =>
      if (given.getD []).contains name then return ← readEntries given done rest
      let given := given.map (name :: ·)
      if isSetting name && done.contains name then
        report key s!"field {name} already set in type semantic.Config"
        readEntries given done rest
      else
        readSetting key name value
        readEntries given (name :: done) rest

/-- The keys of a mapping that are texts. Collections as keys are refused here. -/
def textKeys (entries : List (Node × Node)) : ConfigM (List String) :=
  entries.filterMapM fun (key, _) =>
    follow (fun n => do
      match n with
      | .scalar _ _ tag text =>
        match ← scalarValue tag text with
        | .text s => return some s
        | _ => return none
      | .mapping _ _ inner => if ← distinctKeys inner then throw .malformed else return none
      | _ => throw .malformed) key

/-- The mappings that a merge key names, and aliases of such. -/
def merged (value : Node) : ConfigM (List Node) := do
  let mapping (n : Node) : ConfigM Node :=
    match n with
    | .mapping .. => return n
    | .reference _ _ (some (.mapping ..)) => return n
    | _ => throw .malformed
  match value with
  | .sequence _ _ items => items.mapM mapping
  | n => return [← mapping n]

/-- Reads a mapping and then those that are merged into it, to the given depth. Returns the keys
that count for a mapping that this one is merged into. -/
def readMapping : (depth : Nat) → (given : Option (List String)) → Node →
      ConfigM (Option (List String))
  | 0, given, _ => return given
  | depth + 1, given, n => do
    match n with
    | .mapping _ _ entries =>
      if !(← distinctKeys entries) then return given
      let given ← readEntries given [] entries
      match (entries.reverse.find? fun (key, _) => isMergeKey key) with
      | none => return given
      | some (_, value) =>
        let counted ← match given with
          | some keys => pure keys
          | none => textKeys entries
        let counted ← (← merged value).foldlM
          (fun counted n => do return (← follow (readMapping depth (some counted)) n).getD [])
          counted
        return given.map fun _ => counted
    | _ => return given

/-- Reads the root of a document, with merged mappings to the given depth; the document counts as a
node, too. -/
def readRoot (depth : Nat) (root : Node) : ConfigM Unit := do
  visit
  root |> follow fun n => do
    match n with
    | .mapping .. => discard (readMapping depth none n)
    | .scalar _ _ tag text =>
      match ← scalarValue tag text with
      | .null => pure ()
      | _ => mismatch n "semantic.Config"
    | _ => mismatch n "semantic.Config"

end ConfigReading

/-- Reads a configuration. A text without a document gives the defaults. No mapping is merged at a
depth beyond the length of the text. -/
def readConfig (text : String) : Except ConfigFault Config :=
  match readDocument? text with
  | none => .error .malformed
  | some none => .ok {}
  | some (some n) =>
    match (ConfigReading.readRoot (text.length + 1) n).run.run {} with
    | (.error fault, _) => .error fault
    | (.ok (), draft) =>
      if !draft.lines.isEmpty then .error (.mismatches draft.lines)
      else if draft.config.maxErrors < 0 then .error (.negativeLimit draft.config.maxErrors)
      else .ok draft.config

end UnitCheck
