import UnitCheck.Markup.Node
import UnitCheck.Markup.TokenStream

/-!
# From tokens to nodes

Reads the first document of a markup text. A text with no document at all has no node. Everything
that cannot be read is one and the same fault: the text is not well formed.
-/

namespace UnitCheck.Markup

/-- An anchor that has been read: its name, a number of its own, and its node once that is
complete. -/
structure Anchor where
  name : String
  number : Nat
  node : Option Node

/-- The tokens, the anchors read so far, latest first, and the tag handles. -/
structure Compose where
  scan : Scan
  anchors : List Anchor := []
  handles : List (String × String) := []

abbrev ComposeM := StateT Compose Option

namespace Compose

/-- The next token. Every token that is read takes a character or is the end of the text. -/
def peek : ComposeM Token := do
  let s ← get
  let ((), scan) ← (Scan.fill (s.scan.cursor.size + 4)).run s.scan
  set { s with scan }
  scan.queue.head?

def skip : ComposeM Unit := modify fun s => { s with scan := s.scan.handOut }

def emptyScalar (mark : Mark) : Node := .scalar mark .plain tagNull ""

def shortTag (tag : String) : String :=
  let stem := "tag:yaml.org,2002:".toList
  let chars := tag.toList
  if stem.isPrefixOf chars then "!!" ++ String.ofList (chars.drop stem.length) else tag

/-- The tag that a handle and a suffix spell out. -/
def resolveTag (handle suffix : String) : ComposeM String := do
  if handle = "" then return suffix
  match (← get).handles.lookup handle with
  | some stem => if stem ++ suffix = "" then failure else return stem ++ suffix
  | none => failure

/-- The properties of a node: where they start, its anchor and its tag. -/
structure Properties where
  start : Option Mark := none
  anchor : Option String := none
  tag : String := ""

def anchorProperty (p : Properties) : ComposeM Properties := do
  let t ← peek
  match t.kind with
  | .anchor name => skip; return { p with anchor := some name, start := p.start <|> some t.start }
  | _ => return p

def tagProperty (p : Properties) : ComposeM Properties := do
  let t ← peek
  match t.kind with
  | .tag handle suffix =>
    skip
    let tag ← resolveTag handle suffix
    return { p with tag, start := p.start <|> some t.start }
  | _ => return p

/-- An anchor and a tag, in either order. -/
def properties : ComposeM Properties := do
  match (← peek).kind with
  | .anchor _ => tagProperty (← anchorProperty {})
  | .tag .. => anchorProperty (← tagProperty {})
  | _ => return {}

/-- The tag of a node: the one written, or the given default. -/
def tagOr (p : Properties) (default : String) : String :=
  if p.tag = "" ∨ p.tag = "!" then default else shortTag p.tag

def scalarTag (p : Properties) (style : Style) (text : String) : String :=
  tagOr p <|
    if style ≠ .plain then tagText
    else if text = "<<" then tagMerge
    else (plainValue true text).tag

/-- Opens an anchor for a node whose content follows. -/
def openAnchor (p : Properties) : ComposeM Nat := do
  let number := (← get).anchors.length
  if let some name := p.anchor then
    modify fun s => { s with anchors := ⟨name, number, none⟩ :: s.anchors }
  return number

def closeAnchor (p : Properties) (number : Nat) (node : Node) : ComposeM Node := do
  if p.anchor.isSome then
    modify fun s => { s with
      anchors := s.anchors.map fun a =>
        if a.number = number then { a with node := some node } else a }
  return node

def aliasNode (mark : Mark) (name : String) : ComposeM Node := do
  match (← get).anchors.find? (·.name == name) with
  | some a => return .reference mark name a.node
  | none => failure

/-! ## Nodes

`block` allows block collections, `indentless` a sequence that is not indented below its key.
-/

mutual

def node : (fuel : Nat) → (block indentless : Bool) → ComposeM Node
  | 0, _, _ => failure
  | fuel + 1, block, indentless => do
    let t ← peek
    if let .reference name := t.kind then
      skip
      return ← aliasNode t.start name
    let p ← properties
    let t ← peek
    let start := p.start.getD t.start
    let number ← openAnchor p
    let done := closeAnchor p number
    match t.kind with
    | .scalar style text => skip; done (.scalar start style (scalarTag p style text) text)
    | .flowSequenceStart =>
      skip
      done (.sequence start (tagOr p tagSequence) (← flowItems fuel true))
    | .flowMappingStart =>
      skip
      done (.mapping start (tagOr p tagMapping) (← flowEntries fuel true))
    | .blockEntry =>
      if indentless then done (.sequence start (tagOr p tagSequence) (← indentlessItems fuel))
      else if p.start.isSome then done (.scalar start .plain (scalarTag p .plain "") "")
      else failure
    | .blockSequenceStart =>
      if block then
        skip
        done (.sequence start (tagOr p tagSequence) (← blockItems fuel))
      else if p.start.isSome then done (.scalar start .plain (scalarTag p .plain "") "")
      else failure
    | .blockMappingStart =>
      if block then
        skip
        done (.mapping start (tagOr p tagMapping) (← blockEntries fuel))
      else if p.start.isSome then done (.scalar start .plain (scalarTag p .plain "") "")
      else failure
    | _ =>
      if p.start.isSome then done (.scalar start .plain (scalarTag p .plain "") "") else failure

def blockItems : (fuel : Nat) → ComposeM (List Node)
  | 0 => failure
  | fuel + 1 => do
    let t ← peek
    match t.kind with
    | .blockEntry =>
      skip
      let item ← match (← peek).kind with
        | .blockEntry | .blockEnd => pure (emptyScalar t.stop)
        | _ => node fuel true false
      return item :: (← blockItems fuel)
    | .blockEnd => skip; return []
    | _ => failure

def indentlessItems : (fuel : Nat) → ComposeM (List Node)
  | 0 => failure
  | fuel + 1 => do
    let t ← peek
    match t.kind with
    | .blockEntry =>
      skip
      let item ← match (← peek).kind with
        | .blockEntry | .key | .value | .blockEnd => pure (emptyScalar t.stop)
        | _ => node fuel true false
      return item :: (← indentlessItems fuel)
    | _ => return []

def blockEntries : (fuel : Nat) → ComposeM (List (Node × Node))
  | 0 => failure
  | fuel + 1 => do
    let t ← peek
    match t.kind with
    | .key =>
      skip
      let key ← match (← peek).kind with
        | .key | .value | .blockEnd => pure (emptyScalar t.stop)
        | _ => node fuel true true
      let v ← peek
      let value ← match v.kind with
        | .value => do
          skip
          match (← peek).kind with
          | .key | .value | .blockEnd => pure (emptyScalar v.stop)
          | _ => node fuel true true
        | _ => pure (emptyScalar v.start)
      return (key, value) :: (← blockEntries fuel)
    | .blockEnd => skip; return []
    | _ => failure

def flowItems : (fuel : Nat) → (first : Bool) → ComposeM (List Node)
  | 0, _ => failure
  | fuel + 1, first => do
    let t ← peek
    if t.kind = .flowSequenceEnd then
      skip
      return []
    unless first do
      if t.kind = .flowEntry then skip else failure
    let t ← peek
    match t.kind with
    | .key =>
      skip
      let pair ← flowPair fuel
      return .mapping t.start tagMapping [pair] :: (← flowItems fuel false)
    | .flowSequenceEnd => skip; return []
    | _ => do
      let item ← node fuel false false
      return item :: (← flowItems fuel false)

/-- The one entry of a mapping that stands in a flow sequence without braces. -/
def flowPair : (fuel : Nat) → ComposeM (Node × Node)
  | 0 => failure
  | fuel + 1 => do
    let t ← peek
    let key ← match t.kind with
      | .value | .flowEntry | .flowSequenceEnd => do
        skip
        pure (emptyScalar t.stop)
      | _ => node fuel false false
    let v ← peek
    match v.kind with
    | .value =>
      skip
      match (← peek).kind with
      | .flowEntry | .flowSequenceEnd => return (key, emptyScalar v.start)
      | _ => return (key, ← node fuel false false)
    | _ => return (key, emptyScalar v.start)

def flowEntries : (fuel : Nat) → (first : Bool) → ComposeM (List (Node × Node))
  | 0, _ => failure
  | fuel + 1, first => do
    let t ← peek
    if t.kind = .flowMappingEnd then
      skip
      return []
    unless first do
      if t.kind = .flowEntry then skip else failure
    let t ← peek
    match t.kind with
    | .key =>
      skip
      let k ← peek
      let key ← match k.kind with
        | .value | .flowEntry | .flowMappingEnd => pure (emptyScalar k.start)
        | _ => node fuel false false
      let v ← peek
      let value ← match v.kind with
        | .value => do
          skip
          let n ← peek
          match n.kind with
          | .flowEntry | .flowMappingEnd => pure (emptyScalar n.start)
          | _ => node fuel false false
        | _ => pure (emptyScalar v.start)
      return (key, value) :: (← flowEntries fuel false)
    | .flowMappingEnd => skip; return []
    | _ => do
      let key ← node fuel false false
      let next ← peek
      return (key, emptyScalar next.start) :: (← flowEntries fuel false)

end

/-! ## Documents -/

def standardHandles : List (String × String) := [("!", "!"), ("!!", "tag:yaml.org,2002:")]

/-- The directives before a document; each kind of version and each handle at most once. -/
def directives : (fuel : Nat) → (versioned : Bool) → ComposeM Unit
  | 0, _ => failure
  | fuel + 1, versioned => do
    match (← peek).kind with
    | .versionDirective major minor =>
      if versioned ∨ major ≠ 1 ∨ minor ≠ 1 then failure
      skip
      directives fuel true
    | .tagDirective handle stem =>
      if ((← get).handles.lookup handle).isSome then failure
      modify fun s => { s with handles := s.handles ++ [(handle, stem)] }
      skip
      directives fuel versioned
    | _ =>
      let own := (← get).handles
      modify fun s => { s with
        handles := own ++ standardHandles.filter fun h => (own.lookup h.1).isNone }

/-- The root of the first document, if there is a document. -/
def document (fuel : Nat) : ComposeM (Option Node) := do
  discard peek
  skip
  let explicit ← match (← peek).kind with
    | .streamEnd => return none
    | .versionDirective .. | .tagDirective .. | .documentStart => pure true
    | _ => pure false
  directives fuel false
  if explicit then
    match (← peek).kind with
    | .documentStart => skip
    | _ => failure
  let t ← peek
  let root ←
    if explicit then
      match t.kind with
      | .versionDirective .. | .tagDirective .. | .documentStart | .documentEnd | .streamEnd =>
        pure (emptyScalar t.start)
      | _ => node fuel true false
    else node fuel true false
  discard peek
  return some root

end Compose

/-- The first document of a markup text: nothing when the text is not well formed, and otherwise its
root, or `none` when there is no document. -/
def readDocument? (text : String) : Option (Option Node) :=
  let cursor := Cursor.ofText text.toList
  ((Compose.document (16 * cursor.size + 32)).run { scan := { cursor } }).map (·.1)

end UnitCheck.Markup
