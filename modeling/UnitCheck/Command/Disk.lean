import UnitCheck.Text.Segments

/-!
# Files and directories

The commands see files through a `Disk`, which says what is found under a path. Paths have slashes
between their parts.
-/

namespace UnitCheck

inductive Entry where
  | file (text : String)
  /-- A directory with the names in it and whether they are directories themselves. -/
  | directory (names : List (String × Bool))
  deriving Inhabited

structure Disk (m : Type → Type) where
  look : (path : String) → m (Option Entry)

namespace Path

/-- The parts of a path between slashes. -/
def cutSlashes : List Char → List (List Char)
  | [] => [[]]
  | c :: rest => if c = '/' then [] :: cutSlashes rest else Text.consFirst c (cutSlashes rest)

/-- Adds a part to the parts before it, last first: `.` stays, and `..` goes back where it can. -/
def step (rooted : Bool) (behind : List String) (part : String) : List String :=
  if part = "" ∨ part = "." then behind
  else if part = ".." then
    match behind with
    | [] => if rooted then [] else [".."]
    | last :: before => if last = ".." then ".." :: behind else before
  else part :: behind

def isRooted (path : String) : Bool := path.toList.head? == some '/'

/-- The parts of a path without `.` and, where it can be done without, `..`. -/
def parts (path : String) : List String :=
  ((cutSlashes path.toList).map String.ofList |>.foldl (step (isRooted path)) []).reverse

/-- The shortest path to the same place. -/
def clean (path : String) : String :=
  let text := "/".intercalate (parts path)
  if isRooted path then "/" ++ text else if text = "" then "." else text

def join (directory name : String) : String := clean (directory ++ "/" ++ name)

/-- What follows the last dot of a name, with the dot. -/
def extension (name : String) : String :=
  let back := name.toList.reverse
  if back.contains '.' then String.ofList ('.' :: (back.takeWhile (· ≠ '.')).reverse) else ""

end Path

/-- A file tree that is held in memory. Directories around files and other directories need not be
named. -/
structure FileTree where
  /-- Files with their texts. -/
  files : List (List String × String)
  directories : List (List String)

namespace FileTree

def ofPaths (files : List (String × String)) (directories : List String) : FileTree where
  files := files.map fun (path, text) => (Path.parts path, text)
  directories := directories.map Path.parts

/-- The first part of a path that lies below a place, and whether more follows. -/
def nextPart (place parts : List String) : Option (String × Bool) :=
  if place.isPrefixOf parts then
    match parts.drop place.length with
    | [] => none
    | [name] => some (name, false)
    | name :: _ => some (name, true)
  else none

/-- The names in the directory at a place. -/
def names (t : FileTree) (place : List String) : List (String × Bool) :=
  let fromFiles := t.files.filterMap fun f => nextPart place f.1
  let fromDirectories := t.directories.filterMap fun d =>
    (nextPart place d).map fun part => (part.1, true)
  (fromFiles ++ fromDirectories).eraseDups

/-- Whether there is a directory at a place; the root always is one. -/
def isDirectory (t : FileTree) (place : List String) : Bool :=
  place.isEmpty || t.directories.contains place || !(t.names place).isEmpty

/-- Walks along the parts of a path, from a place with its last part first. Only a directory has a
way back. -/
def walk? (t : FileTree) : (behind : List String) → List String → Option (List String)
  | behind, [] => some behind.reverse
  | behind, part :: rest =>
    if part = "" ∨ part = "." then walk? t behind rest
    else if part = ".." then
      if !t.isDirectory behind.reverse then none
      else match behind with
        | [] => none
        | _ :: behind => walk? t behind rest
    else walk? t (part :: behind) rest

/-- What is found under a path that starts at the root of the tree. -/
def look? (t : FileTree) (path : String) : Option Entry := do
  if path = "" ∨ Path.isRooted path then none
  let place ← t.walk? [] ((Path.cutSlashes path.toList).map String.ofList)
  match t.files.lookup place with
  | some text => some (.file text)
  | none => if t.isDirectory place then some (.directory (t.names place)) else none

def disk (t : FileTree) : Disk Id where
  look path := t.look? path

end FileTree

end UnitCheck
