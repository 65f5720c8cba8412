import UnitCheck.Markup.Document
import UnitCheck.Reading.Names

/-!
# Reading expressions

Scalars are literals, names, member chains (`a.b.c`) and paths (`a::b::c`); quoted scalars are
strings. Mappings are the other expressions, told apart by the first key of `exprKeys` they have. An
alias is read as the node that it names.
-/

namespace UnitCheck.Reading

open Markup

def exprKeys : List String :=
  ["op", "call", "method", "member", "index", "array", "tuple", "new", "cast", "str", "char"]

/-! ## Scalars -/

def memberChain (n : Node) (pos : Position) : (chain : Expr) → List String → ReadM (Option Expr)
  | chain, [] => return some chain
  | chain, s :: rest =>
    if Text.isName s ∨ isIndex s then memberChain n pos (.member chain s pos) rest
    else fail n ("invalid member " ++ Text.quoted s ++ " in " ++ Text.quoted n.text)

/-- A scalar that stands for its text. -/
def nameScalar (n : Node) (pos : Position) : ReadM (Option Expr) := do
  let v := n.text
  if v = "()" then return some (.literal .unit pos)
  else if Text.hasColons v.toList then
    let segments := Text.colonSegments v
    if segments.all Text.isName then return some (.path segments pos)
    else fail n ("invalid path " ++ Text.quoted v)
  else match Text.dotSegments v with
    | [] => fail n ("invalid expression " ++ Text.quoted v)
    | first :: rest =>
      if Text.isName first then memberChain n pos (.ident first pos) rest
      else fail n ("invalid expression " ++ Text.quoted v)

/-- A number or truth value, by the tag of the scalar. -/
def literalScalar (n : Node) (tag : String) : ReadM (Option Literal) := do
  if tag = tagInt then
    match Number.readSigned (n.text.toList.filter (· ≠ '_')) with
    | .ok v => return some (.int v)
    | .error _ => fail n ("invalid integer " ++ Text.quoted n.text)
  else if tag = tagReal then
    match taggedValue? tag n.text with
    | some (.real x) => return some (.float x)
    | _ => fail n ("invalid float " ++ Text.quoted n.text)
  else
    match taggedValue? tag n.text with
    | some (.bool b) => return some (.bool b)
    | _ => fail n ("invalid boolean " ++ Text.quoted n.text)

/-- The tags of scalars that are read as numbers or truth values. -/
def isLiteralTag (tag : String) : Bool := tag == tagInt || tag == tagReal || tag == tagBool

def scalarExpr (n : Node) (tag : String) : ReadM (Option Expr) := do
  let pos ← positionOf n
  if n.isQuoted then return some (.literal (.string n.text) pos)
  else if isLiteralTag tag then return (← literalScalar n tag).map fun l => .literal l pos
  else if tag = tagNull then fail n "missing expression"
  else nameScalar n pos

/-! ## Mappings

The readers below take the reader of the expressions inside.
-/

section

variable (expr : Node → ReadM (Option Expr))

def required (m : Fields) (key what : String) : ReadM (Option Expr) := do
  match m.get key with
  | some n => if n.isNull then fail m.node ("missing " ++ what) else expr n
  | none => fail m.node ("missing " ++ what)

def exprs (n : Option Node) : ReadM (Option (List Expr)) := do
  match n with
  | none => return some []
  | some n =>
    if n.isNull then return some []
    match n with
    | .sequence _ _ items => collect expr items
    | _ => fail n "expected a list of expressions"

/-- An operator with one operand under `x`, or two under `l` and `r`; with the keys that it
knows. -/
def operation (m : Fields) (pos : Position) : ReadM (Option (Expr × List String)) := do
  match m.get "op" with
  | none => fail m.node "missing operator"
  | some n =>
    if n.isNull ∨ !n.isScalar then fail m.node "missing operator"
    else if (m.get "x").isSome then
      match Operator.unary? n.text with
      | none => fail n ("unknown prefix operator " ++ Text.quoted n.text)
      | some op =>
        let x ← required expr m "x" "operand"
        return x.map fun x => (.unary op x pos, ["op", "x"])
    else
      match Operator.binary? n.text with
      | none => fail n ("unknown operator " ++ Text.quoted n.text)
      | some op =>
        let l ← required expr m "l" "left operand"
        let r ← required expr m "r" "right operand"
        return do
          let l ← l
          let r ← r
          some (.binary op l r pos, ["op", "l", "r"])

def callExpr (m : Fields) (pos : Position) : ReadM (Option Expr) := do
  let callee ← required expr m "call" "callee"
  let args ← exprs expr (m.get "args")
  return do return .call (← callee) (← args) pos

def methodExpr (m : Fields) (pos : Position) : ReadM (Option Expr) := do
  let label ← name m (m.get "method") "method name"
  let receiver ← required expr m "recv" "receiver"
  let args ← exprs expr (m.get "args")
  return do
    let label ← label
    return .methodCall (← receiver) label.text (← args) pos

def memberExpr (m : Fields) (pos : Position) : ReadM (Option Expr) := do
  let member ← match m.get "member" with
    | some n =>
      if !n.isNull ∧ n.isScalar ∧ (Text.isName n.text ∨ isIndex n.text) then pure (some n.text)
      else fail m.node "member needs a field name or index"
    | none => fail m.node "member needs a field name or index"
  let target ← required expr m "of" "value"
  return do
    let member ← member
    return .member (← target) member pos

def indexExpr (m : Fields) (pos : Position) : ReadM (Option Expr) := do
  let subscript ← required expr m "index" "index"
  let target ← required expr m "of" "value"
  return do
    let subscript ← subscript
    return .index (← target) subscript pos

def structExpr (m : Fields) (pos : Position) : ReadM (Option Expr) := do
  let label ← name m (m.get "new") "structure name"
  let inits ← match m.get "fields" with
    | none => pure (some [])
    | some n =>
      if n.isNull then pure (some []) else
      match n with
      | .mapping _ _ entries =>
        collect (fun ((key, value) : Node × Node) => do
          if Text.isName key.text then
            let pos ← positionOf key
            return (← expr value).map fun x => ((⟨key.text, pos⟩ : Label), x)
          else fail key ("field name " ++ Text.quoted key.text ++ " is not a name")) entries
      | _ => fail n "fields must map names to values"
  return do
    let label ← label
    return .struct label.text (← inits) pos

def castExpr (m : Fields) (pos : Position) : ReadM (Option Expr) := do
  let operand ← required expr m "cast" "value"
  let type ← match m.get "as" with
    | some n => if n.isNull then fail m.node "missing cast target type" else typeExpr n
    | none => fail m.node "missing cast target type"
  return do return .cast (← operand) (← type) pos

end

def stringExpr (m : Fields) (pos : Position) : ReadM (Option Expr) := do
  match m.get "str" with
  | some n =>
    if n.isNull ∨ !n.isScalar then fail m.node "str needs a scalar value"
    else return some (.literal (.string n.text) pos)
  | none => fail m.node "str needs a scalar value"

def charExpr (m : Fields) (pos : Position) : ReadM (Option Expr) := do
  match m.get "char" with
  | some n =>
    match n.isNull, n.isScalar, n.text.toList with
    | false, true, [c] => return some (.literal (.char c) pos)
    | _, _, _ => fail m.node "char needs exactly one character"
  | none => fail m.node "char needs exactly one character"

def knownExprKeys (key : String) : List String :=
  match key with
  | "call" => ["call", "args"]
  | "method" => ["method", "recv", "args"]
  | "member" => ["member", "of"]
  | "index" => ["index", "of"]
  | "new" => ["new", "fields"]
  | "cast" => ["cast", "as"]
  | key => [key]

/-- An expression that is written as a mapping. The keys of a broken one are not looked at. -/
def exprMapping (expr : Node → ReadM (Option Expr)) (m : Fields) (key : String) :
    ReadM (Option Expr) := do
  let pos ← m.keyPos key
  let known := knownExprKeys key
  let withKeys (r : ReadM (Option Expr)) : ReadM (Option (Expr × List String)) := do
    return (← r).map fun e => (e, known)
  let result ← match key with
    | "op" => operation expr m pos
    | "call" => withKeys (callExpr expr m pos)
    | "method" => withKeys (methodExpr expr m pos)
    | "member" => withKeys (memberExpr expr m pos)
    | "index" => withKeys (indexExpr expr m pos)
    | "array" => withKeys do return (← exprs expr (m.get "array")).map fun es => .array es pos
    | "tuple" => withKeys do return (← exprs expr (m.get "tuple")).map fun es => .tuple es pos
    | "new" => withKeys (structExpr expr m pos)
    | "cast" => withKeys (castExpr expr m pos)
    | "str" => withKeys (stringExpr m pos)
    | _ => withKeys (charExpr m pos)
  match result with
  | none => return none
  | some (e, known) => return if ← finish m key known then some e else none

/-- One level of an expression, with the reader of the levels below. -/
def exprNode (expr : Node → ReadM (Option Expr)) (n : Node) : ReadM (Option Expr) := do
  match n with
  | .scalar _ _ tag _ => scalarExpr n tag
  | .mapping _ _ entries =>
    let m ← fields n entries
    match m.firstKey? exprKeys with
    | some key => exprMapping expr m key
    | none => fail n "cannot tell what this expression is"
  | .sequence .. => fail n "a list is not an expression; use array or tuple"
  | .reference _ _ (some target) => expr target
  | .reference _ _ none => fail n "expected an expression"

def expr : (depth : Nat) → Node → ReadM (Option Expr)
  | 0, n => fail n "expected an expression"
  | depth + 1, n => exprNode (expr depth) n

end UnitCheck.Reading
