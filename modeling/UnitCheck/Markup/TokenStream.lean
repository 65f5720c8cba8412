import UnitCheck.Markup.Properties

/-!
# From text to tokens

Tokens are read from left to right, three at a time before the first of them is handed out. Two
things need more than the text at hand. Block collections are opened and closed by indentation, so
the open indentations are kept on a stack. And a scalar, an alias or a flow collection turns out to
be a key only when the `:` behind it is reached. So the place of a possible key is kept for each
level of flow nesting, reading goes on while the token to be handed out may start a key, and the
tokens that announce a key are put in front of it afterwards. Such a key must stay on one line and
within 1024 characters.
-/

namespace UnitCheck.Markup

/-- The place where a key of some flow level may have started. A required key must be completed. -/
structure PossibleKey where
  possible : Bool := false
  required : Bool := false
  /-- The number of the token that the key starts with. -/
  number : Nat := 0
  mark : Mark := {}

structure Scan where
  cursor : Cursor
  /-- The tokens that have been read and not handed out. -/
  queue : List Token := [⟨.streamStart, {}, {}⟩]
  /-- How many tokens have been handed out; tokens are numbered from zero. -/
  handed : Nat := 0
  indent : Int := -1
  indents : List Int := []
  /-- The possible key of each flow level; the first is that of the block level. -/
  keys : Array PossibleKey := #[{}]
  /-- The tokens that reading waits for, by number, since a key of the given level may start
  there; latest first, so no number comes twice. -/
  awaited : List (Nat × Nat) := []
  keyAllowed : Bool := true

abbrev ScanM := StateT Scan Option

namespace Scan

/-- The number of open flow collections. -/
def level (s : Scan) : Nat := s.keys.size - 1

def inFlow (s : Scan) : Bool := decide (0 < s.level)

def mark (s : Scan) : Mark := s.cursor.mark

def key (s : Scan) : PossibleKey := s.keys.back?.getD {}

def setKey (s : Scan) (level : Nat) (key : PossibleKey) : Scan :=
  { s with keys := s.keys.modify level fun _ => key }

/-- Stops waiting for the token with the given number. -/
def forget (s : Scan) (number : Nat) : Scan :=
  { s with awaited := s.awaited.eraseP fun a => a.1 == number }

def nextNumber (s : Scan) : Nat := s.handed + s.queue.length

def push (s : Scan) (kind : TokenKind) (start stop : Mark) : Scan :=
  { s with queue := s.queue ++ [⟨kind, start, stop⟩] }

/-- Puts a token in front of the one with the given number; when that one has been handed out
already, the token goes to the end. -/
def insert (s : Scan) (number : Nat) (kind : TokenKind) (mark : Mark) : Scan :=
  if number < s.handed then s.push kind mark mark
  else { s with queue := s.queue.insertIdx (number - s.handed) ⟨kind, mark, mark⟩ }

/-- Reads from the text. -/
def text (read : TextM α) : ScanM α := do
  let s ← get
  let (a, cursor) ← read.run s.cursor
  set { s with cursor }
  return a

def take (kind : TokenKind) (n : Nat) : ScanM Unit := do
  let start := (← get).mark
  text (TextM.skipN n)
  modify fun s => s.push kind start s.mark

/-! ## Keys -/

/-- Whether the possible key of a level can still be completed here. One that cannot is given up,
which is a failure when it is required. -/
def keyStands (level : Nat) : ScanM Bool := do
  let s ← get
  match s.keys[level]? with
  | none => return false
  | some key =>
    if !key.possible then return false
    else if key.mark.line < s.mark.line ∨ key.mark.offset + 1024 < s.mark.offset then
      if key.required then failure
      set (s.setKey level { key with possible := false })
      return false
    else return true

/-- Gives up the possible key of the current level. -/
def dropKey : ScanM Unit := do
  let s ← get
  if s.key.possible then
    if s.key.required then failure
    set ((s.setKey s.level { s.key with possible := false }).forget s.key.number)

/-- Notes that a key may start here. It is required where a block mapping already has its keys. -/
def saveKey : ScanM Unit := do
  let s ← get
  if s.keyAllowed then
    dropKey
    let required := !s.inFlow && s.indent == s.mark.column
    let key : PossibleKey := ⟨true, required, s.nextNumber, s.mark⟩
    modify fun s =>
      { s.setKey s.level key with awaited := (key.number, s.level) :: s.awaited }

def allowKey (allowed : Bool) : ScanM Unit := modify fun s => { s with keyAllowed := allowed }

/-! ## Blocks -/

/-- The greatest number of open blocks, and of open flow collections. -/
def maxDepth : Nat := 10000

/-- Where a block ends that is indented to `indent`: at the first of the comments behind it that are
indented like it. Comments are given latest first; they count while there is nothing but comments
from `stop` on. -/
def blockStop (indent : Int) : List Comment → (stop : Int) → Option Mark → Option Mark
  | [], _, found => found
  | c :: rest, stop, found =>
    if c.stop < stop then found
    else
      let found := if c.start.column = indent + 1 then some c.start else found
      blockStop indent rest c.origin found

/-- Closes the blocks that are indented deeper than `column`, one after the other; the tokens that
close them, and the indentations that remain. -/
def closeBlocks (column : Int) (comments : List Comment) :
    (indent : Int) → List Int → (stop : Int) → Mark → List Token × Int × List Int
  | indent, [], _, _ => ([], indent, [])
  | indent, outer :: rest, stop, mark =>
    if column < indent then
      let found := blockStop indent comments stop none
      let mark := found.getD mark
      let stop := (found.map fun m => (m.offset : Int)).getD stop
      let (tokens, i, r) := closeBlocks column comments outer rest stop mark
      (⟨.blockEnd, mark, mark⟩ :: tokens, i, r)
    else ([], indent, outer :: rest)

/-- Closes the blocks that are indented deeper than `column`; `mark` is where they end unless
comments tell otherwise. -/
def unroll (column : Int) (mark : Mark) (comments : List Comment) : ScanM Unit :=
  modify fun s =>
    if s.inFlow then s
    else
      let (tokens, indent, indents) :=
        closeBlocks column comments s.indent s.indents ((mark.offset : Int) - 1) mark
      { s with queue := s.queue ++ tokens, indent, indents }

/-- Opens a block at `column` if it is indented deeper than the current one; its token goes in front
of the token with the given number. -/
def roll (column : Nat) (number : Nat) (kind : TokenKind) (mark : Mark) : ScanM Unit := do
  let s ← get
  if !s.inFlow ∧ s.indent < column then
    if maxDepth ≤ s.indents.length then failure
    set { s.insert number kind mark with indent := column, indents := s.indent :: s.indents }

/-- Opens a block at the next token, where that is allowed. -/
def rollHere (kind : TokenKind) : ScanM Unit := do
  let s ← get
  if !s.inFlow then
    if !s.keyAllowed then failure
    roll s.mark.column s.nextNumber kind s.mark

/-! ## Indicators -/

def flowStart (kind : TokenKind) : ScanM Unit := do
  saveKey
  if maxDepth ≤ (← get).level then failure
  modify fun s => { s with keys := s.keys.push { number := s.nextNumber, mark := s.mark } }
  allowKey true
  take kind 1

def flowEnd (kind : TokenKind) : ScanM Unit := do
  dropKey
  modify fun s => if s.inFlow then { s.forget s.key.number with keys := s.keys.pop } else s
  allowKey false
  take kind 1

def flowEntry : ScanM Unit := do
  dropKey
  allowKey true
  take .flowEntry 1

def blockEntry : ScanM Unit := do
  rollHere .blockSequenceStart
  dropKey
  allowKey true
  take .blockEntry 1

def explicitKey : ScanM Unit := do
  rollHere .blockMappingStart
  dropKey
  allowKey !(← get).inFlow
  take .key 1

/-- The `:` behind a key, be it a possible key or an explicit one. -/
def value : ScanM Unit := do
  if ← keyStands (← get).level then
    let key := (← get).key
    modify fun s => s.insert key.number .key key.mark
    roll key.mark.column key.number .blockMappingStart key.mark
    modify fun s => (s.setKey s.level { key with possible := false }).forget key.number
    allowKey false
  else
    rollHere .blockMappingStart
    allowKey !(← get).inFlow
  take .value 1

/-! ## Nodes and their properties -/

/-- A token that may start a key. -/
def property (read : TextM TokenKind) : ScanM Unit := do
  saveKey
  allowKey false
  let start := (← get).mark
  let kind ← text read
  modify fun s => s.push kind start s.mark

def quotedScalar (style : Style) : ScanM Unit :=
  property do
    TextM.skip
    let single := style == .singleQuoted
    return .scalar style (← quotedText single (← TextM.steps) .start {})

def plainScalar : ScanM Unit := do
  let s ← get
  saveKey
  let (content, endsLine) ← text do
    plainText s.inFlow (s.indent + 1) (← TextM.steps) .start {}
  modify fun t => t.push (.scalar .plain content) s.mark t.mark
  allowKey endsLine

def blockScalar (literal : Bool) : ScanM Unit := do
  dropKey
  allowKey true
  let s ← get
  let content ← text (blockText literal s.indent)
  let style := if literal then .literal else .folded
  modify fun t => t.push (.scalar style content) s.mark t.mark

/-! ## The next token -/

/-- A character that cannot start a plain scalar on its own. -/
def isIndicator (c : Char) : Bool := "-?:,[]\x7b\x7d#&*!|>'\"%@\x60".toList.contains c

def startsPlain (flow : Bool) (c : Char) (rest : List Char) : Bool :=
  !(isSpacing c || isIndicator c) || (c == '-' && !(rest.head?.any isGap)) ||
    (!flow && (c == '?' || c == ':') && !atSpacing rest)

/-- Forgets the block structure, before a directive, a document mark or the end. -/
def reset (comments : List Comment) : ScanM Unit := do
  unroll (-1) (← get).mark comments
  dropKey
  allowKey false

/-- The end of the text counts as the start of a line. -/
def finish (comments : List Comment) : ScanM Unit := do
  modify fun s =>
    let m := s.mark
    if m.column = 0 then s
    else { s with cursor := { s.cursor with mark := ⟨m.line + 1, 0, m.offset⟩ } }
  reset comments
  modify fun s => s.push .streamEnd s.mark s.mark

def directive (comments : List Comment) : ScanM Unit := do
  reset comments
  let start := (← get).mark
  let (kind, stop) ← text directiveLine
  modify fun s => s.push kind start stop

/-- A token that is not a document mark, a directive or the end. -/
def content (c : Char) (rest : List Char) : ScanM Unit := do
  let flow := (← get).inFlow
  match c with
  | '[' => flowStart .flowSequenceStart
  | '\x7b' => flowStart .flowMappingStart
  | ']' => flowEnd .flowSequenceEnd
  | '\x7d' => flowEnd .flowMappingEnd
  | ',' => flowEntry
  | '*' => property (TokenKind.reference <$> anchorName)
  | '&' => property (TokenKind.anchor <$> anchorName)
  | '!' => property ((fun (handle, suffix) => TokenKind.tag handle suffix) <$> tagName)
  | '\'' => quotedScalar .singleQuoted
  | '"' => quotedScalar .doubleQuoted
  | _ =>
    if c = '-' ∧ atSpacing rest then blockEntry
    else if c = '?' ∧ (flow ∨ atSpacing rest) then explicitKey
    else if c = ':' ∧ (flow ∨ atSpacing rest) then value
    else if c = '|' ∧ !flow then blockScalar true
    else if c = '>' ∧ !flow then blockScalar false
    else if startsPlain flow c rest then plainScalar
    else failure

/-- Reads the next token; more than one is added where blocks end or begin. -/
def fetch : ScanM Unit := do
  text (TextM.need 1)
  let s ← get
  let last := s.queue.getLast?.map (·.kind)
  let (keyAllowed, comments) ← text do
    TextM.toToken s.inFlow s.indent (last == some .value) s.mark (← TextM.steps) s.keyAllowed []
  allowKey keyAllowed
  unroll (← get).mark.column s.mark comments
  text (TextM.need 4)
  let here := (← get).cursor
  match here.rest with
  | [] => finish comments
  | c :: rest =>
    if here.mark.column = 0 ∧ c = '%' then directive comments
    else if here.atDocumentMark then
      reset comments
      take (if c = '-' then .documentStart else .documentEnd) 3
    else
      content c rest
      if (← get).queue.getLast?.any (·.kind ≠ .blockEntry) then text TextM.lineComment

/-- Reads ahead: until there are three tokens, and the first of them starts no key that may still be
completed. -/
def fill : (fuel : Nat) → ScanM Unit
  | 0 => failure
  | fuel + 1 => do
    let s ← get
    if 2 < s.queue.length then
      match s.awaited.lookup s.handed with
      | none => return
      | some level => if !(← keyStands level) then return
    fetch
    fill fuel

def handOut (s : Scan) : Scan := { s with queue := s.queue.tail, handed := s.handed + 1 }

end Scan

end UnitCheck.Markup
