/-!
# Segments of dotted and qualified names

A name may be written with dots (`a.b`) or with double colons (`a::b`). The functions below cut a
text at these separators; a text without separators is its own only segment, and separators that
touch leave empty segments between them.
-/

namespace UnitCheck.Text

def consFirst (c : Char) : List (List Char) → List (List Char)
  | [] => [[c]]
  | s :: rest => (c :: s) :: rest

def cutDots : List Char → List (List Char)
  | [] => [[]]
  | c :: rest => if c = '.' then [] :: cutDots rest else consFirst c (cutDots rest)

def cutColons : List Char → List (List Char)
  | [] => [[]]
  | ':' :: ':' :: rest => [] :: cutColons rest
  | c :: rest => consFirst c (cutColons rest)

def cutPath : List Char → List (List Char)
  | [] => [[]]
  | ':' :: ':' :: rest => [] :: cutPath rest
  | c :: rest => if c = '.' then [] :: cutPath rest else consFirst c (cutPath rest)

def hasColons : List Char → Bool
  | ':' :: ':' :: _ => true
  | _ :: rest => hasColons rest
  | [] => false

def dotSegments (s : String) : List String := (cutDots s.toList).map String.ofList

def colonSegments (s : String) : List String := (cutColons s.toList).map String.ofList

def pathSegments (s : String) : List String := (cutPath s.toList).map String.ofList

def dotted (path : List String) : String := ".".intercalate path

end UnitCheck.Text
