import UnitCheck.Reading.Patterns
import UnitCheck.Tree.Item

/-!
# Reading items

An item is a scalar (`break`, `continue` or an expression) or a mapping, told apart by the first key
of `declKeys`, `stmtKeys` and `exprKeys` it has. An item that cannot be read becomes a bad item. The
readers take readers of the expressions, patterns and bodies inside.
-/

namespace UnitCheck.Reading

open Markup

/-- `impl` stands before `trait`, because an implementation has a trait key too. -/
def declKeys : List String :=
  ["let", "const", "fn", "struct", "class", "enum", "impl", "trait", "module", "use"]

def stmtKeys : List String := ["return", "if", "while", "for", "loop", "match", "block", "expr"]

structure Readers where
  expr : Node → ReadM (Option Expr)
  pattern : Node → ReadM (Option Pattern)
  item : Node → ReadM Item

/-- A list of items; one that is missing is empty, and one that is no list is reported. -/
def body (r : Readers) (n : Option Node) : ReadM (List Item) := do
  match n with
  | none => return []
  | some n =>
    if n.isNull then return []
    match n with
    | .sequence _ _ items => items.mapM r.item
    | _ =>
      report n "expected a list of items"
      return []

/-! ## Declarations -/

/-- The keyword's place, the name and the visibility of a declaration. -/
def declHead (m : Fields) (key what : String) : ReadM (Option DeclHead) := do
  let label ← name m (m.get key) what
  let pos ← m.keyPos key
  let isPublic ← flag (m.get "pub")
  return label.map fun label => { pos, label, isPublic }

def letDecl (r : Readers) (m : Fields) : ReadM (Option Item) := do
  let label ← name m (m.get "let") "variable name"
  let pos ← m.keyPos "let"
  let mutable ← flag (m.get "mut")
  let type ← optional typeExpr (m.get "type")
  let value ← optional r.expr (m.get "value")
  let known ← finish m "let" ["let", "mut", "type", "value"]
  return if known then do
    return .letVar { pos, label := ← label, type := ← type, value := ← value, mutable }
  else none

def constDecl (r : Readers) (m : Fields) : ReadM (Option Item) := do
  let head ← declHead m "const" "constant name"
  let type ← optional typeExpr (m.get "type")
  let value ← optional r.expr (m.get "value")
  let known ← finish m "const" ["const", "pub", "type", "value"]
  return if known then do
    return .constant { head := ← head, type := ← type, value := ← value }
  else none

/-- Parameters, written as `name: type` or `mut name: type`; the type may be null. -/
def params (n : Option Node) : ReadM (Option (List Param)) :=
  namedEntries "mut" "parameter" "params must map names to types"
    (fun label mutable value => do
      return (← typeExprOrNull value).map fun type => { label, type, mutable }) n

def functionDecl (r : Readers) (m : Fields) : ReadM (Option Function) := do
  let head ← declHead m "fn" "function name"
  let generics ← typeParams (m.get "generics")
  let parameters ← params (m.get "params")
  let result ← match m.get "returns" with
    | none => pure (some none)
    | some n => typeExprOrNull n
  let stmts ← match m.get "body" with
    | none => pure none
    | some n => pure (some (← body r (some n)))
  let known ← finish m "fn" ["fn", "pub", "generics", "params", "returns", "body"]
  return if known then do
    return .mk { head := ← head, typeParams := ← generics, params := ← parameters, result :=
      ← result } stmts
  else none

def methods (r : Readers) (n : Option Node) : ReadM (Option (List Function)) := do
  match n with
  | none => return some []
  | some n =>
    if n.isNull then return some []
    match n with
    | .sequence _ _ items =>
      collect (fun item => do
        match item with
        | .mapping _ _ entries =>
          let m ← fields item entries
          if (m.get "fn").isSome then functionDecl r m else fail item "expected a function"
        | _ => fail item "expected a function") items
    | _ => fail n "methods must be a list of functions"

/-- Fields, written as `name: type` or `pub name: type`. -/
def fieldDecls (n : Option Node) : ReadM (Option (List FieldDecl)) :=
  namedEntries "pub" "field" "fields must map names to types"
    (fun label isPublic value => do
      return (← typeExpr value).map fun type => { label, type, isPublic }) n

def structDecl (m : Fields) : ReadM (Option Item) := do
  let head ← declHead m "struct" "structure name"
  let generics ← typeParams (m.get "generics")
  let members ← fieldDecls (m.get "fields")
  let known ← finish m "struct" ["struct", "pub", "generics", "fields"]
  return if known then do
    return .structType { head := ← head, typeParams := ← generics, fields := ← members }
  else none

def classDecl (r : Readers) (m : Fields) : ReadM (Option Item) := do
  let head ← declHead m "class" "class name"
  let members ← fieldDecls (m.get "fields")
  let functions ← methods r (m.get "methods")
  let known ← finish m "class" ["class", "pub", "fields", "methods"]
  return if known then do
    return .classType { head := ← head, fields := ← members } (← functions)
  else none

/-- Variants, written as `Name: payload`; a null payload marks a bare variant. -/
def enumDecl (m : Fields) : ReadM (Option Item) := do
  let head ← declHead m "enum" "enumeration name"
  let variants ← namedEntries "pub" "variant" "variants must map names to payload types"
    (fun label isPublic value => do
      return (← typeExprOrNull value).map fun payload =>
        ({ label, payload, isPublic } : VariantDecl)) (m.get "variants")
  let known ← finish m "enum" ["enum", "pub", "variants"]
  return if known then do
    return .enumType { head := ← head, variants := ← variants }
  else none

def traitDecl (r : Readers) (m : Fields) : ReadM (Option Item) := do
  let head ← declHead m "trait" "trait name"
  let functions ← methods r (m.get "methods")
  let known ← finish m "trait" ["trait", "pub", "methods"]
  return if known then do return .traitType (← head) (← functions) else none

def implDecl (r : Readers) (m : Fields) : ReadM (Option Item) := do
  let pos ← m.keyPos "impl"
  let target ← match m.get "impl" with
    | some n => if n.isNull then fail m.node "missing implementation target" else typeExpr n
    | none => fail m.node "missing implementation target"
  let trait ← optional (fun n => path m (some n) "trait path") (m.get "trait")
  let functions ← methods r (m.get "methods")
  let known ← finish m "impl" ["impl", "trait", "methods"]
  return if known then do
    return .implementation { pos, trait := ← trait, target := ← target } (← functions)
  else none

def moduleDecl (r : Readers) (m : Fields) : ReadM (Option Item) := do
  let head ← declHead m "module" "module name"
  let items ← body r (m.get "body")
  let known ← finish m "module" ["module", "pub", "body"]
  return if known then do return .moduleBlock (← head) items else none

def useDecl (m : Fields) : ReadM (Option Item) := do
  let segments ← path m (m.get "use") "import path"
  let pos ← m.keyPos "use"
  let label ← optional (fun n => name m (some n) "import alias") (m.get "as")
  let known ← finish m "use" ["use", "as"]
  return if known then do
    let label ← label
    return .use { pos, path := ← segments, rename := label.map (·.text) }
  else none

/-! ## Statements -/

def arm (r : Readers) (item : Node) : ReadM (Option Arm) := do
  match item with
  | .mapping _ _ entries =>
    let m ← fields item entries
    match m.get "pattern" with
    | none => fail item "a match arm needs a pattern"
    | some p =>
      if p.isNull then fail item "a match arm needs a pattern"
      else
        let pattern ← r.pattern p
        let stmts ← body r (m.get "body")
        let guard ← optional r.expr (m.get "guard")
        let known ← finish m "match arm" ["pattern", "body", "guard"]
        return if known then do return .mk (← pattern) (← guard) stmts else none
  | _ => fail item "a match arm needs a pattern"

def arms (r : Readers) (n : Option Node) : ReadM (Option (List Arm)) := do
  match n with
  | none => return some []
  | some n =>
    if n.isNull then return some []
    match n with
    | .sequence _ _ items => collect (arm r) items
    | _ => fail n "arms must be a list"

def returnStmt (r : Readers) (m : Fields) (pos : Position) : ReadM (Option Item) := do
  let value ← match m.get "return" with
    | none => pure (some none)
    | some n => if n.isNull then pure (some none) else optional r.expr (some n)
  let known ← finish m "return" ["return"]
  return if known then do return .returnWith pos (← value) else none

def ifStmt (r : Readers) (m : Fields) (pos : Position) : ReadM (Option Item) := do
  let cond ← required r.expr m "if" "condition"
  let thenBody ← body r (m.get "then")
  let elseBody ← match m.get "else" with
    | none => pure none
    | some n => pure (some (← body r (some n)))
  let known ← finish m "if" ["if", "then", "else"]
  return if known then do return .ifElse pos (← cond) thenBody elseBody else none

def whileStmt (r : Readers) (m : Fields) (pos : Position) : ReadM (Option Item) := do
  let cond ← required r.expr m "while" "condition"
  let stmts ← body r (m.get "do")
  let known ← finish m "while" ["while", "do"]
  return if known then do return .whileLoop pos (← cond) stmts else none

def forStmt (r : Readers) (m : Fields) (pos : Position) : ReadM (Option Item) := do
  let var ← name m (m.get "for") "loop variable"
  let iter ← required r.expr m "in" "iterable"
  let stmts ← body r (m.get "do")
  let known ← finish m "for" ["for", "in", "do"]
  return if known then do return .forEach pos (← var) (← iter) stmts else none

def loopStmt (r : Readers) (m : Fields) (pos : Position) : ReadM (Option Item) := do
  let stmts ← body r (m.get "loop")
  return if ← finish m "loop" ["loop"] then some (.loop pos stmts) else none

def matchStmt (r : Readers) (m : Fields) (pos : Position) : ReadM (Option Item) := do
  let scrutinee ← required r.expr m "match" "scrutinee"
  let cases ← arms r (m.get "arms")
  let known ← finish m "match" ["match", "arms"]
  return if known then do return .matchOn pos (← scrutinee) (← cases) else none

def blockStmt (r : Readers) (m : Fields) (pos : Position) : ReadM (Option Item) := do
  let stmts ← body r (m.get "block")
  return if ← finish m "block" ["block"] then some (.block pos stmts) else none

def exprStmt (r : Readers) (m : Fields) : ReadM (Option Item) := do
  let x ← required r.expr m "expr" "expression"
  let known ← finish m "expr" ["expr"]
  return if known then x.map .expression else none

/-! ## Items -/

def mappingItem (r : Readers) (n : Node) (m : Fields) : ReadM (Option Item) := do
  match m.firstKey? (declKeys ++ stmtKeys ++ exprKeys) with
  | none => fail n "cannot tell what this item is"
  | some key =>
    let pos ← m.keyPos key
    match key with
    | "let" => letDecl r m
    | "const" => constDecl r m
    | "fn" => return (← functionDecl r m).map .function
    | "struct" => structDecl m
    | "class" => classDecl r m
    | "enum" => enumDecl m
    | "impl" => implDecl r m
    | "trait" => traitDecl r m
    | "module" => moduleDecl r m
    | "use" => useDecl m
    | "return" => returnStmt r m pos
    | "if" => ifStmt r m pos
    | "while" => whileStmt r m pos
    | "for" => forStmt r m pos
    | "loop" => loopStmt r m pos
    | "match" => matchStmt r m pos
    | "block" => blockStmt r m pos
    | "expr" => exprStmt r m
    | key => return (← exprMapping r.expr m key).map .expression

def scalarItem (r : Readers) (n : Node) : ReadM (Option Item) := do
  if n.text = "break" then return some (.breakLoop (← positionOf n))
  else if n.text = "continue" then return some (.continueLoop (← positionOf n))
  else return (← r.expr n).map .expression

/-- One level of an item, with the readers of the levels below. -/
def itemNode (r : Readers) (n : Node) : ReadM Item := do
  let result ← match n with
    | .scalar .. => scalarItem r n
    | .mapping _ _ entries => mappingItem r n (← fields n entries)
    | _ => fail n "expected a declaration, statement or expression"
  match result with
  | some item => return item
  | none => return .bad (← positionOf n) "malformed item"

def item : (depth : Nat) → Node → ReadM Item
  | 0, n => do
    report n "expected a declaration, statement or expression"
    return .bad (← positionOf n) "malformed item"
  | depth + 1, n =>
    itemNode { expr := expr (depth + 1), pattern := pattern (depth + 1), item := item depth } n

end UnitCheck.Reading
