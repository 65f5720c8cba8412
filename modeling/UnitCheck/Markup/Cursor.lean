/-!
# Places in a markup text

A mark is a line and a column, both counted from zero in characters, with the number of characters
before it. A cursor is a mark with the text that is left. The text is loaded in blocks of 512 bytes,
only as far as a reader asks for it, and a character that is not allowed is noticed when its block
is loaded.
-/

namespace UnitCheck.Markup

structure Mark where
  line : Nat := 0
  column : Nat := 0
  offset : Nat := 0
  deriving Repr, DecidableEq, Inhabited

/-- A line break; a carriage return and the line feed behind it are one break. -/
def isBreak (c : Char) : Bool :=
  c == '\n' || c == '\r' || c == '\x85' || c == '\u2028' || c == '\u2029'

/-- A blank within a line. -/
def isGap (c : Char) : Bool := c == ' ' || c == '\t'

def isSpacing (c : Char) : Bool := isGap c || isBreak c

/-- A character of an anchor, a directive name or a tag handle. -/
def isWordChar (c : Char) : Bool := c.isAlphanum || c == '_' || c == '-'

/-- Whether the text ends here or goes on with a blank or a break. -/
def atSpacing : List Char → Bool
  | [] => true
  | c :: _ => isSpacing c

/-- The characters that a markup text may hold. -/
def isAllowed (c : Char) : Bool :=
  let n := c.toNat
  n == 9 || n == 10 || n == 13 || (0x20 ≤ n && n ≤ 0x7e) || n == 0x85 ||
    (0xa0 ≤ n && n ≤ 0xd7ff) || (0xe000 ≤ n && n ≤ 0xfffd) || 0x10000 ≤ n

def orderMark : Char := '\ufeff'

/-- The blocks of a text: the number of characters of each, and nothing for one that holds a
character that is not allowed. `room` is the number of bytes that still fit into the current block,
`count` the number of its characters, and `sound` says that all of them are allowed. -/
def blocksOf : (room count : Nat) → (sound : Bool) → List Char → List (Option Nat)
  | _, count, sound, [] => if count = 0 then [] else [if sound then some count else none]
  | room, count, sound, c :: rest =>
    if c.utf8Size ≤ room then blocksOf (room - c.utf8Size) (count + 1) (sound && isAllowed c) rest
    else
      (if sound then some count else none) :: blocksOf (512 - c.utf8Size) 1 (isAllowed c) rest

structure Cursor where
  rest : List Char
  mark : Mark := {}
  /-- The breaks since the last character that is not a blank. -/
  breaks : Nat := 0
  /-- How many characters are loaded; the end of the text counts as one when it has been met. -/
  ready : Nat := 0
  /-- The blocks that are not loaded yet. -/
  blocks : List (Option Nat)
  /-- Whether what was left of the text when a block was last loaded starts with a byte order
  mark. -/
  marked : Bool := false
  /-- The length of the whole text, which bounds the steps of all readers. -/
  size : Nat

namespace Cursor

/-- The start of a text. A byte order mark at its start is passed over, but takes its room in the
first block. -/
def ofText (text : List Char) : Cursor :=
  match text with
  | c :: rest =>
    if c = orderMark then
      { rest, blocks := blocksOf (512 - c.utf8Size) 0 true rest, size := rest.length }
    else { rest := text, blocks := blocksOf 512 0 true text, size := text.length }
  | [] => { rest := [], blocks := [], size := 0 }

/-- Whether `---` or `...`, followed by spacing, stands at the start of a line here. -/
def atDocumentMark (c : Cursor) : Bool :=
  c.mark.column == 0 && match c.rest with
    | '-' :: '-' :: '-' :: rest => atSpacing rest
    | '.' :: '.' :: '.' :: rest => atSpacing rest
    | _ => false

def skip (c : Cursor) : Cursor :=
  { c with
    rest := c.rest.tail
    mark := ⟨c.mark.line, c.mark.column + 1, c.mark.offset + 1⟩
    breaks := if c.rest.head?.any isGap then c.breaks else 0
    ready := c.ready - 1 }

/-- Moves to the next line over a break of `n` characters. -/
def nextLine (c : Cursor) (n : Nat) : Cursor :=
  { c with
    rest := c.rest.drop n
    mark := ⟨c.mark.line + 1, 0, c.mark.offset + n⟩
    breaks := c.breaks + 1
    ready := c.ready - n }

end Cursor

/-! ## Reading -/

/-- Readers of a text; they fail where it is not well formed. -/
abbrev TextM := StateT Cursor Option

namespace TextM

/-- Loads blocks until `n` characters are at hand or the text ends. -/
def load? (n : Nat) : (ready : Nat) → List (Option Nat) → Option (Nat × List (Option Nat))
  | ready, [] => some (if n ≤ ready then ready else ready + 1, [])
  | ready, block :: blocks =>
    if n ≤ ready then some (ready, block :: blocks)
    else block.bind fun size => load? n (ready + size) blocks

/-- Makes sure that `n` characters are at hand, as far as there are so many. -/
def need (n : Nat) : TextM Unit := do
  let c ← get
  unless n ≤ c.ready do
    let (ready, blocks) ← load? n c.ready c.blocks
    set { c with ready, blocks, marked := c.rest.head? == some orderMark }

def ahead? (distance : Nat) : TextM (Option Char) := return (← get).rest[distance]?

def next? : TextM (Option Char) := return (← get).rest.head?

def nextIs (c : Char) : TextM Bool := return (← next?) == some c

def mark : TextM Mark := return (← get).mark

/-- A number of steps that is enough for any reader. -/
def steps : TextM Nat := return 4 * (← get).size + 16

def skip : TextM Unit := modify Cursor.skip

def skipN : Nat → TextM Unit
  | 0 => return
  | n + 1 => do
    skip
    skipN n

/-- Moves over a break and returns it: as a line feed, or as the separator that it is. -/
def takeBreak : TextM (List Char) := do
  match (← get).rest with
  | '\r' :: '\n' :: _ =>
    modify (·.nextLine 2)
    return ['\n']
  | c :: _ =>
    if isBreak c then
      modify (·.nextLine 1)
      return [if c = '\u2028' ∨ c = '\u2029' then c else '\n']
    else return []
  | [] => return []

def skipBreak : TextM Unit := discard takeBreak

def takeWhileLoop (p : Char → Bool) : (fuel : Nat) → List Char → TextM (List Char)
  | 0, taken => return taken
  | fuel + 1, taken => do
    need 1
    match ← next? with
    | some c =>
      if p c then
        skip
        takeWhileLoop p fuel (c :: taken)
      else return taken
    | none => return taken

def takeWhile (p : Char → Bool) : TextM (List Char) := do
  return (← takeWhileLoop p (← steps) []).reverse

def skipWhile (p : Char → Bool) : TextM Unit := discard (takeWhile p)

end TextM

end UnitCheck.Markup
