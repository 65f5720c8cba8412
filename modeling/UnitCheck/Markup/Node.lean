import UnitCheck.Markup.ScalarValue
import UnitCheck.Markup.Token

/-!
# Nodes

The tree that a markup text denotes. Every node carries the place where it starts and its tag, short
form. An alias carries the node that its anchor names; it has none when it stands inside that node.
-/

namespace UnitCheck.Markup

inductive Node where
  | scalar (mark : Mark) (style : Style) (tag text : String)
  | sequence (mark : Mark) (tag : String) (items : List Node)
  | mapping (mark : Mark) (tag : String) (entries : List (Node × Node))
  /-- An alias. -/
  | reference (mark : Mark) (name : String) (target : Option Node)
  deriving Inhabited

namespace Node

def mark : Node → Mark
  | scalar m _ _ _ => m
  | sequence m _ _ => m
  | mapping m _ _ => m
  | reference m _ _ => m

/-- The text of a scalar and the name of an alias; collections have none. -/
def text : Node → String
  | scalar _ _ _ t => t
  | reference _ name _ => name
  | _ => ""

def isNull : Node → Bool
  | scalar _ _ tag _ => tag == tagNull
  | _ => false

def isScalar : Node → Bool
  | scalar .. => true
  | _ => false

def isQuoted : Node → Bool
  | scalar _ style _ _ => style == .singleQuoted || style == .doubleQuoted
  | _ => false

/-- Reads a node as a truth value; aliases are followed and words such as `yes` are accepted. -/
def bool? : Node → Option Bool
  | scalar _ _ tag text =>
    match taggedValue? tag text with
    | some (.bool b) => some b
    | some .null => some false
    | some (.text s) => wordBool? s
    | _ => none
  | reference _ _ (some target) => target.bool?
  | _ => none

end Node

end UnitCheck.Markup
