import UnitCheck.Markup.Cursor

/-!
# Comments and blanks between tokens

Comments mean nothing, but they tell where a block ends: a block that is followed by comments which
are indented like it ends at the first of them. For that, comments that stand together are gathered.
An empty line or a change of indentation may start a new group.
-/

namespace UnitCheck.Markup

/-- Comments that stand together: the offset from which on they were looked for, the mark of the
first, with its column counted from one, and the offset behind them. -/
structure Comment where
  origin : Nat
  start : Mark
  stop : Nat

/-- The search for comments. Groups that are complete are in reverse order. -/
structure CommentSearch where
  origin : Nat
  start : Mark := {}
  gathering : Bool := false
  /-- No empty line has been seen so far. -/
  compact : Bool
  /-- The line before is empty. -/
  afterEmpty : Bool := false
  line : Nat
  column : Nat
  found : List Comment

namespace CommentSearch

/-- Completes the current group at the given offset. -/
def close (s : CommentSearch) (offset : Nat) : CommentSearch :=
  if s.gathering then
    { s with
      found := ⟨s.origin, s.start, offset⟩ :: s.found
      origin := offset
      gathering := false }
  else s

/-- Takes note of a line that ends without a comment. The first empty line completes a group right
below the content before it (on `footLine`), unless that content is an open value, and a group that
is not indented to `margin`. -/
def emptyLine (s : CommentSearch) (margin : Nat) (footLine : Int) (afterValue : Bool)
    (offset : Nat) : CommentSearch :=
  let apart := s.compact && !s.afterEmpty &&
    ((s.start.line == footLine && !afterValue) || decide (s.start.column - 1 < margin))
  { (if apart then s.close offset else s) with
    compact := false, afterEmpty := true, line := s.line + 1, column := 0 }

/-- Takes note of the first character of a line; one that is not indented to `margin`, and not like
the group before, completes that group. -/
def startLine (s : CommentSearch) (margin offset : Nat) : CommentSearch :=
  if s.column - 1 < margin ∧ s.column ≠ s.start.column then s.close offset else s

def add (s : CommentSearch) (offset : Nat) : CommentSearch :=
  if s.gathering then s
  else { s with start := ⟨s.line, s.column, offset⟩, gathering := true }

end CommentSearch

namespace TextM

/-- Moves to the comment at the given offset and on to the end of its line. -/
def skipComment (start : Nat) : (fuel : Nat) → TextM Unit
  | 0 => return
  | fuel + 1 => do
    need 1
    match ← next? with
    | none => return
    | some c =>
      if isBreak c then
        if start ≤ (← mark).offset then return
        need 2
        skipBreak
      else skip
      skipComment start fuel

/-- Gathers comments from a `#` on, `ahead` characters behind the cursor. Between two comments there
are fewer than 512 characters, and no breaks other than line feeds and carriage returns. -/
def gather (margin : Nat) (footLine : Int) (afterValue : Bool) :
    (fuel ahead : Nat) → CommentSearch → TextM (List Comment)
  | 0, _, s => return s.found
  | fuel + 1, ahead, s => do
    let done (s : CommentSearch) (ahead : Nat) : TextM (List Comment) := do
      return (s.close ((← mark).offset + ahead - 1)).found
    -- Goes on behind the break at the given distance.
    let onward (s : CommentSearch) (ahead : Nat) : TextM (List Comment) := do
      if (← ahead? ahead).any fun c => c.utf8Size ≠ 1 then
        if 512 ≤ ahead + 1 then return ← done s (ahead + 1)
        need (ahead + 2)
        let here := (← mark).offset + ahead + 1
        done ({ s with column := 1 }.startLine margin here) (ahead + 1)
      else gather margin footLine afterValue fuel (ahead + 1) s
    if 512 ≤ ahead then return ← done s ahead
    need (ahead + 1)
    let here := (← mark).offset + ahead
    let s := { s with column := s.column + 1 }
    match ← ahead? ahead with
    | none => done (s.emptyLine margin footLine afterValue here) ahead
    | some c =>
      if isGap c then gather margin footLine afterValue fuel (ahead + 1) s
      else if isBreak c then onward (s.emptyLine margin footLine afterValue here) ahead
      else
        let s := s.startLine margin here
        if c ≠ '#' then done s ahead
        else
          let s := s.add here
          skipComment here (← steps)
          onward { s with afterEmpty := false, column := 0, line := (← mark).line } 0

/-- Gathers the comments that start here. `origin` is where the search began, behind a token, and
`indent` the indentation of the current block. -/
def comments (indent : Int) (afterValue : Bool) (origin : Mark) (found : List Comment) :
    TextM (List Comment) := do
  let c ← get
  let below : Int := if c.breaks = 0 ∧ 1 < c.mark.column then 2 else 1
  let footLine := if origin.line = 0 then -1 else (c.mark.line : Int) - c.breaks + below
  gather indent.toNat footLine afterValue (← steps) 0
    { origin := origin.offset, compact := decide (c.breaks ≤ 1), line := c.mark.line
      column := c.mark.column, found }

def lineCommentFrom : (fuel ahead : Nat) → TextM Unit
  | 0, _ => return
  | fuel + 1, ahead => do
    need (ahead + 1)
    match ← ahead? ahead with
    | none => return
    | some c =>
      if c = '#' then skipComment ((← mark).offset + ahead) (← steps)
      else if isGap c then lineCommentFrom fuel (ahead + 1)

/-- Moves over a comment on the line of the token that was read last. -/
def lineComment : TextM Unit := do
  if (← get).breaks = 0 then lineCommentFrom 512 0

/-- Moves to the next token. Returns whether a key may start there and the comments on the way,
latest first. A break in block context allows a key; tabs are blanks only in flow context and where
no key may start. Where the loaded text starts with a byte order mark, one character is passed over
at the start of every line. -/
def toToken (flow : Bool) (indent : Int) (afterValue : Bool) (origin : Mark) :
    (fuel : Nat) → (keyAllowed : Bool) → List Comment → TextM (Bool × List Comment)
  | 0, keyAllowed, found => return (keyAllowed, found)
  | fuel + 1, keyAllowed, found => do
    need 1
    if (← get).marked ∧ (← mark).column = 0 then skip
    skipWhile fun c => c == ' ' || (c == '\t' && (flow || !keyAllowed))
    let found ← if ← nextIs '#' then comments indent afterValue origin found else pure found
    if (← next?).any isBreak then
      need 2
      skipBreak
      toToken flow indent afterValue origin fuel (keyAllowed || !flow) found
    else return (keyAllowed, found)

end TextM

end UnitCheck.Markup
