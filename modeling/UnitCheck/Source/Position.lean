/-!
# Source positions

A position names a file, a line and a column, both counted from one. A position whose line is not
positive is unknown: diagnostics made deep inside the type registry or the scope table carry the
unknown position until a caller fills it in.
-/

namespace UnitCheck

structure Position where
  file : String := ""
  line : Int := 0
  column : Int := 0
  deriving Repr, DecidableEq, Inhabited

namespace Position

/-- The position of something whose place in the source is not known. -/
def unknown : Position := {}

def isValid (p : Position) : Bool := decide (0 < p.line)

/-- `file:line:column`, without the file when it has no name, and a dash when the place is
unknown. -/
def text (p : Position) : String :=
  if p.isValid then
    if p.file = "" then s!"{p.line}:{p.column}" else s!"{p.file}:{p.line}:{p.column}"
  else "-"

/-- Strict source order: by file name, then line, then column. -/
def before (p q : Position) : Bool :=
  if p.file ≠ q.file then decide (p.file < q.file)
  else if p.line ≠ q.line then decide (p.line < q.line)
  else decide (p.column < q.column)

def orElse (p q : Position) : Position := if p.isValid then p else q

end Position

end UnitCheck
