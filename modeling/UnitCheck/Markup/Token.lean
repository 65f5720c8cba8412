import UnitCheck.Markup.Cursor

/-!
# Tokens of a markup text

Indentation is made explicit by tokens that open and close block collections; `key` and `value`
stand before the two halves of a mapping entry.
-/

namespace UnitCheck.Markup

inductive Style where
  | plain | singleQuoted | doubleQuoted | literal | folded
  deriving Repr, DecidableEq, Inhabited

inductive TokenKind where
  | streamStart
  | versionDirective (major minor : Nat)
  | tagDirective (handle stem : String)
  | documentStart | documentEnd | streamEnd
  | blockSequenceStart | blockMappingStart | blockEnd
  | flowSequenceStart | flowSequenceEnd | flowMappingStart | flowMappingEnd
  | blockEntry | flowEntry | key | value
  /-- An alias: the name of an anchor in place of a node. -/
  | reference (name : String)
  | anchor (name : String)
  | tag (handle suffix : String)
  | scalar (style : Style) (text : String)
  deriving Repr, DecidableEq, Inhabited

structure Token where
  kind : TokenKind
  start : Mark
  stop : Mark
  deriving Repr, Inhabited

end UnitCheck.Markup
