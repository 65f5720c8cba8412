import UnitCheck.Markup.Comment
import UnitCheck.Markup.Token

/-!
# Texts of scalars

Scalars may run over several lines. In plain and quoted scalars the breaks between words are folded:
one break becomes a blank, and of several the first is dropped. Block scalars take whole lines below
an indentation. Each reader below starts at the first character of the scalar and moves behind it.
-/

namespace UnitCheck.Markup

open TextM

/-- What was first seen since the last character of a scalar, apart from blanks. -/
inductive Lead where
  | none
  | escapedBreak
  | break (c : Char)
  deriving DecidableEq

/-- A scalar that is being read, with the spacing since its last character. All lists are in reverse
order. -/
structure Folding where
  text : List Char := []
  blanks : List Char := []
  lead : Lead := .none
  breaks : List Char := []

namespace Folding

/-- The text with the spacing since its last character folded into it. -/
def folded (f : Folding) : List Char :=
  match f.lead with
  | .none => f.blanks ++ f.text
  | .escapedBreak => f.breaks ++ f.text
  | .break c =>
    if c = '\n' then if f.breaks.isEmpty then ' ' :: f.text else f.breaks ++ f.text
    else f.breaks ++ c :: f.text

def push (f : Folding) (c : Char) : Folding := { text := c :: f.folded }

def addGap (f : Folding) (c : Char) : Folding :=
  if f.lead = .none then { f with blanks := c :: f.blanks } else f

def addBreak (f : Folding) (c : Char) : Folding :=
  if f.lead = .none then { f with blanks := [], lead := .break c }
  else { f with breaks := c :: f.breaks }

def escapeBreak (f : Folding) : Folding := { text := f.folded, lead := .escapedBreak }

end Folding

/-- Where a reader of folded text is: before a word, inside one, or in the spacing behind it. -/
inductive Place where
  | start | word | spacing
  deriving DecidableEq

/-- Moves over a blank or a break between words. -/
def takeSpacing (c : Char) (f : Folding) : TextM Folding := do
  if isGap c then
    skip
    need 1
    return f.addGap c
  else
    need 2
    let taken ← takeBreak
    need 1
    return taken.foldl Folding.addBreak f

/-! ## Plain scalars -/

def endsPlain (flow : Bool) (c : Char) (rest : List Char) : Bool :=
  (c == ':' && atSpacing rest) ||
    (flow && (c == ',' || c == '?' || c == '[' || c == ']' || c == '\x7b' || c == '\x7d'))

/-- A plain scalar that is complete: its text, without the spacing behind it, and whether it ended
after a break. -/
def Folding.plain (f : Folding) : String × Bool := (String.ofList f.text.reverse, f.lead ≠ .none)

/-- Reads a plain scalar. In block context it ends at a line that is not indented to `margin`. -/
def plainText (flow : Bool) (margin : Int) : (fuel : Nat) → Place → Folding → TextM (String × Bool)
  | 0, _, _ => failure
  | fuel + 1, place, f => do
    if place = .start then need 4
    let here ← get
    match place, here.rest with
    | .start, c =>
      if here.atDocumentMark ∨ c.head? = some '#' then return f.plain
      else plainText flow margin fuel .word f
    | .word, c :: rest =>
      if isSpacing c then
        need 1
        plainText flow margin fuel .spacing f
      else if endsPlain flow c rest then return f.plain
      else
        skip
        need 2
        plainText flow margin fuel .word (f.push c)
    | .spacing, c :: _ =>
      if isSpacing c then
        if c = '\t' ∧ f.lead ≠ .none ∧ (here.mark.column : Int) < margin then failure
        plainText flow margin fuel .spacing (← takeSpacing c f)
      else if !flow ∧ (here.mark.column : Int) < margin then return f.plain
      else plainText flow margin fuel .start f
    | .word, [] => return f.plain
    | .spacing, [] =>
      if !flow ∧ (here.mark.column : Int) < margin then return f.plain
      else plainText flow margin fuel .start f

/-! ## Quoted scalars -/

def hexValue? (c : Char) : Option Nat :=
  let n := c.toNat
  if 48 ≤ n ∧ n ≤ 57 then some (n - 48)
  else if 97 ≤ n ∧ n ≤ 102 then some (n - 87)
  else if 65 ≤ n ∧ n ≤ 70 then some (n - 55)
  else none

/-- The character with a hexadecimal code point, unless the code point is a surrogate or too
large. -/
def hexChar? (digits : List Char) : Option Char := do
  let values ← digits.mapM hexValue?
  let code := values.foldl (fun n d => 16 * n + d) 0
  if code.isValidChar then some (Char.ofNat code) else none

/-- The character that a letter stands for after a backslash. -/
def escapeChar? (c : Char) : Option Char :=
  match c with
  | '0' => some '\x00'
  | 'a' => some '\x07'
  | 'b' => some '\x08'
  | 't' => some '\t'
  | '\t' => some '\t'
  | 'n' => some '\n'
  | 'v' => some '\x0b'
  | 'f' => some '\x0c'
  | 'r' => some '\r'
  | 'e' => some '\x1b'
  | ' ' => some ' '
  | '"' => some '"'
  | '\'' => some '\''
  | '\\' => some '\\'
  | 'N' => some '\x85'
  | '_' => some '\xa0'
  | 'L' => some '\u2028'
  | 'P' => some '\u2029'
  | _ => none

/-- The number of hexadecimal digits behind a letter after a backslash. -/
def escapeWidth? (c : Char) : Option Nat :=
  if c = 'x' then some 2 else if c = 'u' then some 4 else if c = 'U' then some 8 else none

/-- Moves over a backslash and what belongs to it, and returns the character that is meant. -/
def takeEscape : TextM Char := do
  let some letter ← ahead? 1 | failure
  match escapeWidth? letter with
  | some width =>
    skipN 2
    need width
    let digits := (← get).rest.take width
    if digits.length < width then failure
    let c ← hexChar? digits
    skipN width
    return c
  | none =>
    let c ← escapeChar? letter
    skipN 2
    return c

/-- Reads a quoted scalar from behind its opening quote. A single quote is escaped by a second one,
and in double quotes a backslash starts an escape. -/
def quotedText (single : Bool) : (fuel : Nat) → Place → Folding → TextM String
  | 0, _, _ => failure
  | fuel + 1, place, f => do
    let quote := if single then '\'' else '"'
    let done : TextM String := do
      need 1
      skip
      return String.ofList f.folded.reverse
    if place = .start then need 4
    let here ← get
    match place, here.rest with
    | .start, [] => failure
    | .start, _ => if here.atDocumentMark then failure else quotedText single fuel .word f
    | .word, [] =>
      need 1
      quotedText single fuel .spacing f
    | .word, c :: rest =>
      if isSpacing c then
        need 1
        quotedText single fuel .spacing f
      else if c = quote then
        if single ∧ rest.head? = some quote then
          skipN 2
          need 2
          quotedText single fuel .word (f.push c)
        else done
      else if !single ∧ c = '\\' then
        if rest.head?.any isBreak then
          need 3
          skip
          skipBreak
          need 1
          if ← nextIs quote then
            skip
            return String.ofList f.escapeBreak.folded.reverse
          quotedText single fuel .spacing f.escapeBreak
        else
          let x ← takeEscape
          need 2
          quotedText single fuel .word (f.push x)
      else
        skip
        need 2
        quotedText single fuel .word (f.push c)
    | .spacing, c :: _ =>
      if isSpacing c then quotedText single fuel .spacing (← takeSpacing c f)
      else quotedText single fuel .start f
    | .spacing, [] => quotedText single fuel .start f

/-! ## Block scalars -/

/-- What happens to the breaks at the end of a block scalar. -/
inductive Chomping where
  | strip | clip | keep
  deriving DecidableEq

/-- A block scalar that is being read; lists are in reverse order. `margin` is zero until the
indentation of the scalar is known, `widest` the greatest column reached before that. -/
structure BlockText where
  literal : Bool
  chomping : Chomping
  outer : Int
  margin : Nat
  widest : Nat := 0
  text : List Char := []
  lead : List Char := []
  breaks : List Char := []
  /-- The last line of content started with a blank. -/
  ledByGap : Bool := false

namespace BlockText

/-- The indentation of the content, once its first line has been reached. -/
def settled (b : BlockText) : BlockText :=
  if b.margin = 0 then { b with margin := max (max b.widest (b.outer + 1).toNat) 1 } else b

/-- Starts a line of content with the character `c`. -/
def startLine (b : BlockText) (c : Char) : BlockText :=
  let joined :=
    if !b.literal ∧ !b.ledByGap ∧ !isGap c ∧ b.lead = ['\n'] then
      if b.breaks.isEmpty then ' ' :: b.text else b.text
    else b.lead ++ b.text
  { b with text := b.breaks ++ joined, lead := [], breaks := [], ledByGap := isGap c }

def finish (b : BlockText) : String :=
  let withLead := if b.chomping = .strip then b.text else b.lead ++ b.text
  let all := if b.chomping = .keep then b.breaks ++ withLead else withLead
  String.ofList all.reverse

end BlockText

/-- Moves over indentation and empty lines to the next line of content. -/
def blockBreaks : (fuel : Nat) → BlockText → TextM BlockText
  | 0, _ => failure
  | fuel + 1, b => do
    need 1
    let here ← get
    let inMargin := b.margin = 0 ∨ here.mark.column < b.margin
    let b' := { b with widest := max b.widest here.mark.column }
    match here.rest with
    | c :: _ =>
      if inMargin ∧ c = ' ' then
        skip
        blockBreaks fuel b
      else if inMargin ∧ c = '\t' then failure
      else if isBreak c then
        need 2
        let taken ← takeBreak
        blockBreaks fuel { b' with breaks := taken ++ b'.breaks }
      else return b'.settled
    | [] => return b'.settled

def blockLines : (fuel : Nat) → BlockText → TextM String
  | 0, _ => failure
  | fuel + 1, b => do
    let here ← get
    match here.rest with
    | c :: _ =>
      if here.mark.column = b.margin then
        let b := b.startLine c
        let line ← takeWhile fun x => !isBreak x
        need 2
        let lead ← takeBreak
        let b ← blockBreaks (← steps) { b with text := line.reverse ++ b.text, lead, widest := 0 }
        blockLines fuel b
      else return b.finish
    | [] => return b.finish

/-- The chomping that a character asks for. -/
def chomp? (c : Option Char) : Option Chomping :=
  if c = some '+' then some .keep else if c = some '-' then some .strip else none

/-- The indentation that a digit asks for, if the next character is one; zero is refused. -/
def takeWidth : TextM Nat := do
  match ← next? with
  | some c =>
    if c = '0' then failure
    else if c.isDigit then
      skip
      return c.toNat - 48
    else return 0
  | none => return 0

/-- The header of a block scalar: chomping and indentation in either order. -/
def blockHeader : TextM (Chomping × Nat) := do
  match chomp? (← next?) with
  | some chomping =>
    skip
    need 1
    return (chomping, ← takeWidth)
  | none =>
    let width ← takeWidth
    if width = 0 then return (.clip, 0)
    need 1
    match chomp? (← next?) with
    | some chomping =>
      skip
      return (chomping, width)
    | none => return (.clip, width)

/-- Reads a block scalar from its indicator on; `outer` is the indentation around it. -/
def blockText (literal : Bool) (outer : Int) : TextM String := do
  skip
  need 1
  let (chomping, width) ← blockHeader
  skipWhile isGap
  if ← nextIs '#' then
    lineComment
    skipWhile fun x => !isBreak x
  match ← next? with
  | some c =>
    if !isBreak c then failure
    need 2
    skipBreak
  | none => pure ()
  let margin := if width = 0 then 0 else (max outer 0).toNat + width
  let b ← blockBreaks (← steps) { literal, chomping, outer, margin }
  need 1
  blockLines (← steps) b

end UnitCheck.Markup
