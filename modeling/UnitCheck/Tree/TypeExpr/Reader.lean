import UnitCheck.Tree.TypeExpr
import UnitCheck.Tree.TypeExpr.Lexeme

/-!
# Reading type annotations

    type  := '&' [''' name] ['mut'] type
           | '[' type [';' length] ']'
           | '(' list ')'
           | 'fn' '(' list ')' ['-' '>' type]
           | name (('.' | ':' ':') name)* ['<' list '>']
    list  := empty | type (',' type)*

A parenthesis around one type is that type. `mut` directly behind `&` or a lifetime is always the
modifier, and `fn` at the start of a type always begins a function type.
-/

namespace UnitCheck

inductive TypeExprFault where
  | lexical (fault : LexFault)
  | unexpected (found : Option LexemeKind)
  | expected (symbol : Char) (found : Option LexemeKind)
  | expectedName (found : Option LexemeKind)
  | expectedLength (found : Option LexemeKind)
  | invalidLength (text : String)
  deriving Repr, DecidableEq

namespace TypeExprFault

/-- How a lexeme is named in a message. -/
def describe : Option LexemeKind → String
  | none => "end of type"
  | some (.name text) => Text.quoted text
  | some (.integer text) => Text.quoted text
  | some (.symbol c) => Text.quoted c.toString
  | some (.broken fault) => fault.message

def message : TypeExprFault → String
  | lexical fault => fault.message
  | unexpected found => "unexpected " ++ describe found
  | expected symbol found =>
    "expected " ++ Text.quoted symbol.toString ++ ", found " ++ describe found
  | expectedName found => "expected a name, found " ++ describe found
  | expectedLength found => "expected an array length, found " ++ describe found
  | invalidLength text => "invalid array length " ++ text

end TypeExprFault

namespace TypeExpr

def found (ls : List Lexeme) : Option LexemeKind := ls.head?.map (·.kind)

/-- Fails at the next lexeme; a place that could not be split fails for its own reason. -/
def failAt {α : Type} (ls : List Lexeme) (fault : Option LexemeKind → TypeExprFault) :
    Except TypeExprFault α :=
  match found ls with
  | some (.broken lex) => .error (.lexical lex)
  | kind => .error (fault kind)

def expect (symbol : Char) (ls : List Lexeme) : Except TypeExprFault (List Lexeme) :=
  match ls with
  | ⟨.symbol c, _⟩ :: rest => if c = symbol then .ok rest else failAt ls (.expected symbol)
  | _ => failAt ls (.expected symbol)

def name (ls : List Lexeme) : Except TypeExprFault (String × List Lexeme) :=
  match ls with
  | ⟨.name text, _⟩ :: rest => .ok (text, rest)
  | _ => failAt ls .expectedName

def lifetime (ls : List Lexeme) : Except TypeExprFault (Option String × List Lexeme) :=
  match ls with
  | ⟨.symbol '\'', _⟩ :: rest =>
    match name rest with
    | .ok (text, rest) => .ok (some text, rest)
    | .error e => .error e
  | _ => .ok (none, ls)

def modifier (ls : List Lexeme) : Bool × List Lexeme :=
  match ls with
  | ⟨.name "mut", _⟩ :: rest => (true, rest)
  | _ => (false, ls)

/-- An optional length behind the element type of an array. -/
def arrayLength (ls : List Lexeme) : Except TypeExprFault (Option Int × List Lexeme) :=
  match ls with
  | ⟨.symbol ';', _⟩ :: rest =>
    match rest with
    | ⟨.integer text, _⟩ :: rest =>
      match Number.readDecimal? text.toList with
      | some n => .ok (some n, rest)
      | none => .error (.invalidLength text)
    | _ => failAt rest .expectedLength
  | _ => .ok (none, ls)

def pathTail : List Lexeme → Except TypeExprFault (List String × List Lexeme)
  | ⟨.symbol '.', _⟩ :: ⟨.name text, _⟩ :: rest => do
    let (more, rest) ← pathTail rest
    return (text :: more, rest)
  | ⟨.symbol ':', _⟩ :: ⟨.symbol ':', _⟩ :: ⟨.name text, _⟩ :: rest => do
    let (more, rest) ← pathTail rest
    return (text :: more, rest)
  | ⟨.symbol '.', _⟩ :: rest => failAt rest .expectedName
  | ⟨.symbol ':', _⟩ :: ⟨.symbol ':', _⟩ :: rest => failAt rest .expectedName
  | ⟨.symbol ':', _⟩ :: rest => failAt rest (.expected ':')
  | ls => .ok ([], ls)

mutual

/-- Reads a type from the start of the lexemes. `base` is the place of the annotation's first
character; all lexemes count as standing on its line. -/
def readType (base : Position) : (fuel : Nat) → List Lexeme →
      Except TypeExprFault (TypeExpr × List Lexeme)
  | 0, ls => failAt ls .unexpected
  | _ + 1, [] => failAt [] .unexpected
  | fuel + 1, l :: rest =>
    let pos := { base with column := base.column + l.column - 1 }
    match l.kind with
    | .symbol '&' => do
      let (lifetime, rest) ← lifetime rest
      let (mutable, rest) := modifier rest
      let (inner, rest) ← readType base fuel rest
      return (.ref inner mutable lifetime pos, rest)
    | .symbol '[' => do
      let (elem, rest) ← readType base fuel rest
      let (length, rest) ← arrayLength rest
      let rest ← expect ']' rest
      return (.array elem length pos, rest)
    | .symbol '(' => do
      let (elems, rest) ← readList base ')' fuel rest
      match elems with
      | [elem] => return (elem, rest)
      | _ => return (.tuple elems pos, rest)
    | .name "fn" => do
      let rest ← expect '(' rest
      let (params, rest) ← readList base ')' fuel rest
      match rest with
      | ⟨.symbol '-', _⟩ :: rest =>
        let rest ← expect '>' rest
        let (result, rest) ← readType base fuel rest
        return (.func params (some result) pos, rest)
      | _ => return (.func params none pos, rest)
    | .name text => do
      let (more, rest) ← pathTail rest
      match rest with
      | ⟨.symbol '<', _⟩ :: rest =>
        let (args, rest) ← readList base '>' fuel rest
        return (.named (text :: more) args pos, rest)
      | _ => return (.named (text :: more) [] pos, rest)
    | _ => failAt (l :: rest) .unexpected

/-- Reads types up to and including the closing character. -/
def readList (base : Position) (close : Char) :
    (fuel : Nat) → List Lexeme → Except TypeExprFault (List TypeExpr × List Lexeme)
  | 0, ls => failAt ls .unexpected
  | fuel + 1, ls =>
    match ls with
    | ⟨.symbol c, _⟩ :: rest => if c = close then .ok ([], rest) else readItems base close fuel ls
    | _ => readItems base close fuel ls

/-- Reads one type or more, separated by commas, and the closing character. -/
def readItems (base : Position) (close : Char) :
    (fuel : Nat) → List Lexeme → Except TypeExprFault (List TypeExpr × List Lexeme)
  | 0, ls => failAt ls .unexpected
  | fuel + 1, ls => do
    let (item, rest) ← readType base fuel ls
    match rest with
    | ⟨.symbol ',', _⟩ :: rest =>
      let (more, rest) ← readItems base close fuel rest
      return (item :: more, rest)
    | _ =>
      let rest ← expect close rest
      return ([item], rest)

end

/-- Reads lexemes that have to be used up. -/
def ofLexemes (base : Position) (ls : List Lexeme) : Except TypeExprFault TypeExpr := do
  let (result, rest) ← readType base (3 * ls.length + 3) ls
  match rest with
  | [] => return result
  | _ => failAt rest .unexpected

def read (text : String) (base : Position) : Except TypeExprFault TypeExpr :=
  ofLexemes base (Lexeme.split text)

end TypeExpr

end UnitCheck
