/-!
# Indented text

Puts a margin before every line that is not empty.
-/

namespace UnitCheck.Text

def indentChars (margin : List Char) : (atStart : Bool) → List Char → List Char
  | _, [] => []
  | atStart, c :: rest =>
    if atStart ∧ c ≠ '\n' then margin ++ c :: indentChars margin (c == '\n') rest
    else c :: indentChars margin (c == '\n') rest

def indented (s margin : String) : String := String.ofList (indentChars margin.toList true s.toList)

end UnitCheck.Text
