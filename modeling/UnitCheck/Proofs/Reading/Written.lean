import Mathlib.Data.List.Forall2
import UnitCheck.Reading.Unit

/-!
# Nodes and the trees that they are written for

`ItemOf file n item faults` — the node `n` is written for `item`, and `faults` are the faults of
`n`. A rule for each construct says which keys the construct has, what is written under each of
them, and where the parts of the tree stand in the file; lists go element by element, in order. A
node that cannot be made out is written for a bad item, and then it has a fault.

A construct with faults is still made out if they concern only a repeated key, a flag, or something
inside of a body. The relations for parts without bodies (`ExprOf`, `PatternOf`) therefore take the
faults of the item around them, and all that they say with them is that without faults no key is
repeated. -/

namespace UnitCheck.Reading

open Markup Text

/-! ## Mappings and optional values -/

/-- Where a node is in its file. -/
def place (file : String) (n : Node) : Position := ⟨file, n.mark.line + 1, n.mark.column + 1⟩

/-- The first entry of a mapping under a key. -/
def pair? (entries : List (Node × Node)) (key : String) : Option (Node × Node) :=
  entries.find? (·.1.text == key)

/-- The value of the first entry under a key. -/
def value? (entries : List (Node × Node)) (key : String) : Option Node :=
  (pair? entries key).map (·.2)

/-- The keys of a mapping are ones that its construct knows, and each is given once or there are
faults. -/
structure Keys (faults : List UnitFault) (known : List String)
    (entries : List (Node × Node)) : Prop where
  known : ∀ e ∈ entries, e.1.text ∈ known
  distinct : faults = [] → (entries.map (·.1.text)).Nodup

/-- The place of a key of a mapping. -/
def KeyAt (file : String) (entries : List (Node × Node)) (key : String) (pos : Position) : Prop :=
  ∃ e, pair? entries key = some e ∧ pos = place file e.1

section

variable {α : Type}

/-- A value that has to be there. -/
inductive Given (R : Node → α → Prop) : Option Node → α → Prop where
  | intro {n : Node} {a : α} (hn : n.isNull = false) (h : R n a) : Given R (some n) a

/-- A value that may be missing. -/
inductive Optional (R : Node → α → Prop) : Option Node → Option α → Prop where
  | missing : Optional R none none
  | given {n : Node} {a : α} (h : R n a) : Optional R (some n) (some a)

/-- A value that may be missing or null. -/
inductive Nullable (R : Node → α → Prop) : Option Node → Option α → Prop where
  | missing : Nullable R none none
  | null {n : Node} (hn : n.isNull = true) : Nullable R (some n) none
  | given {n : Node} {a : α} (hn : n.isNull = false) (h : R n a) : Nullable R (some n) (some a)

end

section

variable {α : Type} {R : Node → α → Prop} {Q : α → Prop} {v : Option Node} {a : Option α}

theorem Given.each {a : α} (h : Given R v a) (hq : ∀ n a, R n a → Q a) : Q a := by
  cases h with
  | intro _ h => exact hq _ _ h

theorem Optional.each (h : Optional R v a) (hq : ∀ n a, R n a → Q a) : ∀ b ∈ a, Q b := by
  cases h with
  | missing => simp
  | given h => simpa using hq _ _ h

theorem Nullable.each (h : Nullable R v a) (hq : ∀ n a, R n a → Q a) : ∀ b ∈ a, Q b := by
  cases h with
  | missing | null => simp
  | given _ h => simpa using hq _ _ h

/-- What holds of everything that is written for something holds of all of a list. -/
theorem forall_of_forall₂ {β : Type} {S : β → α → Prop} {nodes : List β} {as : List α}
    (h : List.Forall₂ S nodes as) (hq : ∀ n a, S n a → Q a) : ∀ a ∈ as, Q a := by
  induction h with
  | nil => simp
  | cons h _ ih => exact List.forall_mem_cons.mpr ⟨hq _ _ h, ih⟩

end

/-- The nodes of a list that may be missing or null. -/
inductive Lists : Option Node → List Node → Prop where
  | missing : Lists none []
  | null {n : Node} (hn : n.isNull = true) : Lists (some n) []
  | given (mark : Mark) (tag : String) (items : List Node) :
    Lists (some (.sequence mark tag items)) items

/-- The entries of a mapping that may be missing or null. -/
inductive Maps : Option Node → List (Node × Node) → Prop where
  | missing : Maps none []
  | null {n : Node} (hn : n.isNull = true) : Maps (some n) []
  | given (mark : Mark) (tag : String) (entries : List (Node × Node)) :
      Maps (some (.mapping mark tag entries)) entries

/-! ## Names, paths, flags and types -/

def LabelOf (file : String) (n : Node) (label : Label) : Prop :=
  n.isScalar = true ∧ isName n.text = true ∧ label = ⟨n.text, place file n⟩

def PathOf (n : Node) (segments : List String) : Prop :=
  n.isScalar = true ∧ segments = pathSegments n.text ∧ ∀ s ∈ segments, isName s = true

/-- A flag is not set where it is missing or null. -/
inductive FlagOf (faults : List UnitFault) : Option Node → Bool → Prop where
  | missing : FlagOf faults none false
  | null {n : Node} (hn : n.isNull = true) : FlagOf faults (some n) false
  | given {n : Node} {b : Bool} (hn : n.isNull = false) (h : n.bool? = some b) :
    FlagOf faults (some n) b
  | broken {n : Node} (hn : n.isNull = false) (h : n.bool? = none) (hfaults : faults ≠ []) :
      FlagOf faults (some n) false

def TypeOf (file : String) (n : Node) (t : TypeExpr) : Prop :=
  n.isScalar = true ∧ n.isNull = false ∧ TypeExpr.read n.text (place file n) = .ok t

/-- An entry from a name, which may start with a word, to a value. -/
def NamedOf {α : Type} (file word : String) (R : Label → Bool → Node → α → Prop)
    (entry : Node × Node) (a : α) : Prop :=
  isName (splitWord word entry.1.text).1 = true ∧
    R ⟨(splitWord word entry.1.text).1, place file entry.1⟩
    (splitWord word entry.1.text).2 entry.2 a

/-! ## Expressions and patterns -/

/-- A number or truth value, by the tag of its scalar. -/
inductive LiteralOf (text : String) : String → Literal → Prop where
  | int {v : Int} (h : Number.readSigned (text.toList.filter (· ≠ '_')) = .ok v) :
      LiteralOf text tagInt (.int v)
  | real {x : Float} (h : taggedValue? tagReal text = some (.real x)) :
    LiteralOf text tagReal (.float x)
  | bool {b : Bool} (h : taggedValue? tagBool text = some (.bool b)) :
    LiteralOf text tagBool (.bool b)

/-- A scalar whose text is neither a string in quotes nor a literal. -/
def Plain (n : Node) (tag : String) : Prop := n.isQuoted = false ∧ isLiteralTag tag = false

/-- A scalar that is written for an expression: a string in quotes, a literal, `()`, a path, or a
name with members. -/
inductive TextExprOf (file : String) (n : Node) (tag : String) : Expr → Prop where
  | quoted (hquoted : n.isQuoted = true) :
    TextExprOf file n tag (.literal (.string n.text) (place file n))
  | literal {l : Literal} (hquoted : n.isQuoted = false) (h : LiteralOf n.text tag l) :
      TextExprOf file n tag (.literal l (place file n))
  | unit (hplain : Plain n tag) (htag : tag ≠ tagNull) (htext : n.text = "()") :
      TextExprOf file n tag (.literal .unit (place file n))
  | path (hplain : Plain n tag) (htag : tag ≠ tagNull) (htext : n.text ≠ "()")
      (hcolons : hasColons n.text.toList = true)
      (hnames : ∀ s ∈ colonSegments n.text, isName s = true) :
      TextExprOf file n tag (.path (colonSegments n.text) (place file n))
  | chain {first : String} {members : List String} (hplain : Plain n tag) (htag : tag ≠ tagNull)
      (htext : n.text ≠ "()") (hcolons : hasColons n.text.toList = false)
      (hsegments : dotSegments n.text = first :: members) (hfirst : isName first = true)
      (hmembers : ∀ s ∈ members, isName s = true ∨ isIndex s = true) :
      TextExprOf file n tag
        (members.foldl (fun e s => .member e s (place file n)) (.ident first (place file n)))

/-- The name of a field and the expression that it is set to. -/
inductive InitOf (file : String) (R : Node → Expr → Prop) : Node × Node → Label × Expr → Prop where
  | intro {key value : Node} {e : Expr} (hname : isName key.text = true) (h : R value e) :
      InitOf file R (key, value) (⟨key.text, place file key⟩, e)

/-- A name of a member: a name or an index. -/
def MemberOf (n : Node) (member : String) : Prop :=
  n.isScalar = true ∧ member = n.text ∧ (isName n.text = true ∨ isIndex n.text = true)

/-- A node that is written for an expression. Every mapping is told by a key of its own, whose place
is the place of the expression. -/
inductive ExprOf (file : String) (faults : List UnitFault) : Node → Expr → Prop where
  | scalar (h : TextExprOf file (.scalar mark style tag text) tag e) :
      ExprOf file faults (.scalar mark style tag text) e
  | alias {name : String} (h : ExprOf file faults target e) :
      ExprOf file faults (.reference mark name (some target)) e
  | unary (hpos : KeyAt file entries "op" pos) (hkeys : Keys faults ["op", "x"] entries)
      (hop : value? entries "op" = some n) (hspelling : Operator.unary? n.text = some op)
      (hx : Given (ExprOf file faults) (value? entries "x") x) :
      ExprOf file faults (.mapping mark tag entries) (.unary op x pos)
  | binary (hpos : KeyAt file entries "op" pos) (hkeys : Keys faults ["op", "l", "r"] entries)
      (hop : value? entries "op" = some n) (hspelling : Operator.binary? n.text = some op)
      (hl : Given (ExprOf file faults) (value? entries "l") l)
      (hr : Given (ExprOf file faults) (value? entries "r") r) :
      ExprOf file faults (.mapping mark tag entries) (.binary op l r pos)
  | call (hpos : KeyAt file entries "call" pos) (hkeys : Keys faults ["call", "args"] entries)
      (hcallee : Given (ExprOf file faults) (value? entries "call") callee)
      (hnodes : Lists (value? entries "args") nodes)
        (hargs : List.Forall₂ (ExprOf file faults) nodes args) :
      ExprOf file faults (.mapping mark tag entries) (.call callee args pos)
  | method (hpos : KeyAt file entries "method" pos)
    (hkeys : Keys faults ["method", "recv", "args"] entries)
      (hlabel : Given (LabelOf file) (value? entries "method") label)
      (hreceiver : Given (ExprOf file faults) (value? entries "recv") receiver)
      (hnodes : Lists (value? entries "args") nodes)
        (hargs : List.Forall₂ (ExprOf file faults) nodes args) :
      ExprOf file faults (.mapping mark tag entries) (.methodCall receiver label.text args pos)
  | member {name : String} (hpos : KeyAt file entries "member" pos)
      (hkeys : Keys faults ["member", "of"] entries)
        (hname : Given MemberOf (value? entries "member") name)
      (htarget : Given (ExprOf file faults) (value? entries "of") target) :
      ExprOf file faults (.mapping mark tag entries) (.member target name pos)
  | index (hpos : KeyAt file entries "index" pos) (hkeys : Keys faults ["index", "of"] entries)
      (hsubscript : Given (ExprOf file faults) (value? entries "index") subscript)
      (htarget : Given (ExprOf file faults) (value? entries "of") target) :
      ExprOf file faults (.mapping mark tag entries) (.index target subscript pos)
  | array (hpos : KeyAt file entries "array" pos) (hkeys : Keys faults ["array"] entries)
      (hnodes : Lists (value? entries "array") nodes)
      (helems : List.Forall₂ (ExprOf file faults) nodes elems) :
      ExprOf file faults (.mapping mark tag entries) (.array elems pos)
  | tuple (hpos : KeyAt file entries "tuple" pos) (hkeys : Keys faults ["tuple"] entries)
      (hnodes : Lists (value? entries "tuple") nodes)
      (helems : List.Forall₂ (ExprOf file faults) nodes elems) :
      ExprOf file faults (.mapping mark tag entries) (.tuple elems pos)
  | struct {inner : List (Node × Node)} (hpos : KeyAt file entries "new" pos)
      (hkeys : Keys faults ["new", "fields"] entries)
      (hlabel : Given (LabelOf file) (value? entries "new") label)
      (hinner : Maps (value? entries "fields") inner)
      (hinits : List.Forall₂ (InitOf file (ExprOf file faults)) inner inits) :
      ExprOf file faults (.mapping mark tag entries) (.struct label.text inits pos)
  | cast (hpos : KeyAt file entries "cast" pos) (hkeys : Keys faults ["cast", "as"] entries)
      (hoperand : Given (ExprOf file faults) (value? entries "cast") operand)
      (htype : Given (TypeOf file) (value? entries "as") type) :
      ExprOf file faults (.mapping mark tag entries) (.cast operand type pos)
  | string (hpos : KeyAt file entries "str" pos) (hkeys : Keys faults ["str"] entries)
      (hn : value? entries "str" = some n) (hscalar : n.isScalar = true) :
      ExprOf file faults (.mapping mark tag entries) (.literal (.string n.text) pos)
  | char (hpos : KeyAt file entries "char" pos) (hkeys : Keys faults ["char"] entries)
      (hn : value? entries "char" = some n) (hscalar : n.isScalar = true)
        (htext : n.text.toList = [c]) :
      ExprOf file faults (.mapping mark tag entries) (.literal (.char c) pos)

/-- A scalar that is written for a pattern: a string in quotes, a literal, `_`, a name that `mut`
may stand before, or the path of a variant. -/
inductive TextPatternOf (file : String) (n : Node) (tag : String) : Pattern → Prop where
  | quoted (hquoted : n.isQuoted = true) :
    TextPatternOf file n tag (.literal (.string n.text) (place file n))
  | literal {l : Literal} (hquoted : n.isQuoted = false) (h : LiteralOf n.text tag l) :
      TextPatternOf file n tag (.literal l (place file n))
  | wildcard (hplain : Plain n tag) (htext : n.text = "_") :
      TextPatternOf file n tag (.wildcard (place file n))
  | mutable {name : String} (hplain : Plain n tag) (htext : splitWord "mut" n.text = (name, true))
      (hname : isName name = true) : TextPatternOf file n tag (.binding name true (place file n))
  | variant (hplain : Plain n tag) (hpath : '.' ∈ n.text.toList ∨ ':' ∈ n.text.toList)
      (hnames : ∀ s ∈ pathSegments n.text, isName s = true) :
      TextPatternOf file n tag (.variant (pathSegments n.text) [] (place file n))
  | binding (hplain : Plain n tag) (htext : n.text ≠ "_") (hname : isName n.text = true) :
      TextPatternOf file n tag (.binding n.text false (place file n))

/-- What a variant holds: a list of patterns, or a single one that is not written as a list. -/
inductive PayloadOf (R : Node → Pattern → Prop) : Option Node → List Pattern → Prop where
  | list {v : Option Node} {nodes : List Node} {ps : List Pattern} (hnodes : Lists v nodes)
      (h : List.Forall₂ R nodes ps) : PayloadOf R v ps
  | single {n : Node} {p : Pattern} (hn : ∀ nodes, ¬ Lists (some n) nodes) (h : R n p) :
      PayloadOf R (some n) [p]

/-- A node that is written for a pattern. -/
inductive PatternOf (file : String) (faults : List UnitFault) : Node → Pattern → Prop where
  | scalar (h : TextPatternOf file (.scalar mark style tag text) tag p) :
      PatternOf file faults (.scalar mark style tag text) p
  | tuple (h : List.Forall₂ (PatternOf file faults) items ps) :
      PatternOf file faults (.sequence mark tag items)
      (.tuple ps (place file (.sequence mark tag items)))
  | variant (hkeys : Keys faults ["variant", "of"] entries)
      (hsegments : Given PathOf (value? entries "variant") segments)
      (hheld : PayloadOf (PatternOf file faults) (value? entries "of") ps) :
      PatternOf file faults (.mapping mark tag entries)
        (.variant segments ps (place file (.mapping mark tag entries)))

/-! ## Declarations -/

/-- The keyword's place, the name and the visibility of a declaration. -/
structure HeadOf (file : String) (faults : List UnitFault)
    (entries : List (Node × Node)) (key : String) (head : DeclHead) : Prop where
  pos : KeyAt file entries key head.pos
  label : Given (LabelOf file) (value? entries key) head.label
  isPublic : FlagOf faults (value? entries "pub") head.isPublic

/-- Type parameters are a list of names. -/
def GenericsOf (file : String) (v : Option Node) (labels : List Label) : Prop :=
  ∃ nodes, Lists v nodes ∧ List.Forall₂ (LabelOf file) nodes labels

/-- A mapping from names to something. -/
def NamesOf {α : Type} (file word : String) (R : Label → Bool → Node → α → Prop) (v : Option Node)
    (as : List α) : Prop :=
  ∃ entries, Maps v entries ∧ List.Forall₂ (NamedOf file word R) entries as

def ParamsOf (file : String) : Option Node → List Param → Prop :=
  NamesOf file "mut" fun label mutable value p =>
    ∃ type, Nullable (TypeOf file) (some value) type ∧ p = { label, type, mutable }

def FieldsOf (file : String) : Option Node → List FieldDecl → Prop :=
  NamesOf file "pub" fun label isPublic value f =>
    ∃ type, TypeOf file value type ∧ f = { label, type, isPublic }

def VariantsOf (file : String) : Option Node → List VariantDecl → Prop :=
  NamesOf file "pub" fun label isPublic value d =>
    ∃ payload, Nullable (TypeOf file) (some value) payload ∧ d = { label, payload, isPublic }

/-- What stands before the body of a function. -/
structure FunctionHeadOf (file : String) (faults : List UnitFault) (entries : List (Node × Node))
    (f : FunctionHead) : Prop where
  keys : Keys faults ["fn", "pub", "generics", "params", "returns", "body"] entries
  head : HeadOf file faults entries "fn" f.head
  typeParams : GenericsOf file (value? entries "generics") f.typeParams
  params : ParamsOf file (value? entries "params") f.params
  result : Nullable (TypeOf file) (value? entries "returns") f.result

structure LetOf (file : String) (faults : List UnitFault)
    (entries : List (Node × Node)) (d : LetDecl) :
    Prop where
  keys : Keys faults ["let", "mut", "type", "value"] entries
  pos : KeyAt file entries "let" d.pos
  label : Given (LabelOf file) (value? entries "let") d.label
  mutable : FlagOf faults (value? entries "mut") d.mutable
  type : Optional (TypeOf file) (value? entries "type") d.type
  value : Optional (ExprOf file faults) (value? entries "value") d.value

structure ConstOf (file : String) (faults : List UnitFault) (entries : List (Node × Node))
    (d : ConstDecl) : Prop where
  keys : Keys faults ["const", "pub", "type", "value"] entries
  head : HeadOf file faults entries "const" d.head
  type : Optional (TypeOf file) (value? entries "type") d.type
  value : Optional (ExprOf file faults) (value? entries "value") d.value

structure StructOf (file : String) (faults : List UnitFault) (entries : List (Node × Node))
    (d : StructDecl) : Prop where
  keys : Keys faults ["struct", "pub", "generics", "fields"] entries
  head : HeadOf file faults entries "struct" d.head
  typeParams : GenericsOf file (value? entries "generics") d.typeParams
  fields : FieldsOf file (value? entries "fields") d.fields

structure ClassOf (file : String) (faults : List UnitFault) (entries : List (Node × Node))
    (d : ClassHead) : Prop where
  keys : Keys faults ["class", "pub", "fields", "methods"] entries
  head : HeadOf file faults entries "class" d.head
  fields : FieldsOf file (value? entries "fields") d.fields

structure EnumOf (file : String) (faults : List UnitFault) (entries : List (Node × Node))
    (d : EnumDecl) : Prop where
  keys : Keys faults ["enum", "pub", "variants"] entries
  head : HeadOf file faults entries "enum" d.head
  variants : VariantsOf file (value? entries "variants") d.variants

structure ImplOf (file : String) (faults : List UnitFault) (entries : List (Node × Node))
    (d : ImplHead) : Prop where
  keys : Keys faults ["impl", "trait", "methods"] entries
  pos : KeyAt file entries "impl" d.pos
  target : Given (TypeOf file) (value? entries "impl") d.target
  trait : Optional PathOf (value? entries "trait") d.trait

structure UseOf (file : String) (faults : List UnitFault) (entries : List (Node × Node))
    (d : UseDecl) : Prop where
  keys : Keys faults ["use", "as"] entries
  pos : KeyAt file entries "use" d.pos
  path : Given PathOf (value? entries "use") d.path
  rename : ∃ label, Optional (LabelOf file) (value? entries "as") label ∧
    d.rename = label.map (·.text)

/-! ## Items -/

mutual

/-- A node that is written for an item, with its faults; the faults of a body are a part of them. -/
inductive ItemOf (file : String) : Node → Item → List UnitFault → Prop where
  /-- A node that cannot be made out has a fault. -/
  | bad (h : faults ≠ []) : ItemOf file n (.bad (place file n) "malformed item") faults
  | breakLoop : ItemOf file (.scalar mark style tag "break")
        (.breakLoop (place file (.scalar mark style tag "break"))) faults
  | continueLoop : ItemOf file (.scalar mark style tag "continue")
        (.continueLoop (place file (.scalar mark style tag "continue"))) faults
  | textExpr (hbreak : text ≠ "break") (hcontinue : text ≠ "continue")
      (h : ExprOf file faults (.scalar mark style tag text) e) :
      ItemOf file (.scalar mark style tag text) (.expression e) faults
  | mappingExpr (h : ExprOf file faults (.mapping mark tag entries) e) :
      ItemOf file (.mapping mark tag entries) (.expression e) faults
  | exprStmt (hkeys : Keys faults ["expr"] entries)
      (h : Given (ExprOf file faults) (value? entries "expr") e) :
      ItemOf file (.mapping mark tag entries) (.expression e) faults
  | letVar (h : LetOf file faults entries d) :
    ItemOf file (.mapping mark tag entries) (.letVar d) faults
  | constant (h : ConstOf file faults entries d) :
      ItemOf file (.mapping mark tag entries) (.constant d) faults
  | function (h : FunctionOf file entries f faults) :
      ItemOf file (.mapping mark tag entries) (.function f) faults
  | structType (h : StructOf file faults entries d) :
      ItemOf file (.mapping mark tag entries) (.structType d) faults
  | classType {methods : List Function} (h : ClassOf file faults entries d)
      (hnodes : Lists (value? entries "methods") nodes)
        (hmethods : MethodsOf file nodes methods faults) :
      ItemOf file (.mapping mark tag entries) (.classType d methods) faults
  | enumType (h : EnumOf file faults entries d) :
    ItemOf file (.mapping mark tag entries) (.enumType d) faults
  | traitType {methods : List Function} (hkeys : Keys faults ["trait", "pub", "methods"] entries)
      (hhead : HeadOf file faults entries "trait" head)
        (hnodes : Lists (value? entries "methods") nodes)
      (hmethods : MethodsOf file nodes methods faults) :
      ItemOf file (.mapping mark tag entries) (.traitType head methods) faults
  | implementation {methods : List Function} (h : ImplOf file faults entries d)
      (hnodes : Lists (value? entries "methods") nodes)
        (hmethods : MethodsOf file nodes methods faults) :
      ItemOf file (.mapping mark tag entries) (.implementation d methods) faults
  | moduleBlock {body : List Item} (hkeys : Keys faults ["module", "pub", "body"] entries)
      (hhead : HeadOf file faults entries "module" head)
      (hbody : BodyOf file (value? entries "body") body part) (hpart : part <:+: faults) :
      ItemOf file (.mapping mark tag entries) (.moduleBlock head body) faults
  | use (h : UseOf file faults entries d) : ItemOf file (.mapping mark tag entries) (.use d) faults
  | returnWith (hpos : KeyAt file entries "return" pos) (hkeys : Keys faults ["return"] entries)
      (hvalue : Nullable (ExprOf file faults) (value? entries "return") value) :
      ItemOf file (.mapping mark tag entries) (.returnWith pos value) faults
  | ifThen {cond : Expr} (hpos : KeyAt file entries "if" pos)
      (hkeys : Keys faults ["if", "then", "else"] entries)
      (hcond : Given (ExprOf file faults) (value? entries "if") cond)
      (hthen : BodyOf file (value? entries "then") thenBody part) (hpart : part <:+: faults)
      (helse : value? entries "else" = none) :
      ItemOf file (.mapping mark tag entries) (.ifElse pos cond thenBody none) faults
  | ifElse {cond : Expr} (hpos : KeyAt file entries "if" pos)
      (hkeys : Keys faults ["if", "then", "else"] entries)
      (hcond : Given (ExprOf file faults) (value? entries "if") cond)
      (hthen : BodyOf file (value? entries "then") thenBody part) (hpart : part <:+: faults)
      (hn : value? entries "else" = some n) (helse : BodyOf file (some n) elseBody part')
      (hpart' : part' <:+: faults) :
      ItemOf file (.mapping mark tag entries) (.ifElse pos cond thenBody (some elseBody)) faults
  | whileLoop {cond : Expr} {body : List Item} (hpos : KeyAt file entries "while" pos)
      (hkeys : Keys faults ["while", "do"] entries)
      (hcond : Given (ExprOf file faults) (value? entries "while") cond)
      (hbody : BodyOf file (value? entries "do") body part) (hpart : part <:+: faults) :
      ItemOf file (.mapping mark tag entries) (.whileLoop pos cond body) faults
  | forEach {body : List Item} (hpos : KeyAt file entries "for" pos)
      (hkeys : Keys faults ["for", "in", "do"] entries)
      (hvar : Given (LabelOf file) (value? entries "for") var)
      (hiter : Given (ExprOf file faults) (value? entries "in") iter)
      (hbody : BodyOf file (value? entries "do") body part) (hpart : part <:+: faults) :
      ItemOf file (.mapping mark tag entries) (.forEach pos var iter body) faults
  | loop {body : List Item} (hpos : KeyAt file entries "loop" pos)
    (hkeys : Keys faults ["loop"] entries)
      (hbody : BodyOf file (value? entries "loop") body part) (hpart : part <:+: faults) :
      ItemOf file (.mapping mark tag entries) (.loop pos body) faults
  | matchOn {arms : List Arm} (hpos : KeyAt file entries "match" pos)
      (hkeys : Keys faults ["match", "arms"] entries)
      (hscrutinee : Given (ExprOf file faults) (value? entries "match") scrutinee)
      (hnodes : Lists (value? entries "arms") nodes) (harms : ArmsOf file nodes arms faults) :
      ItemOf file (.mapping mark tag entries) (.matchOn pos scrutinee arms) faults
  | block {body : List Item} (hpos : KeyAt file entries "block" pos)
    (hkeys : Keys faults ["block"] entries)
      (hbody : BodyOf file (value? entries "block") body part) (hpart : part <:+: faults) :
      ItemOf file (.mapping mark tag entries) (.block pos body) faults

/-- Nodes that are written for items, one for each; the faults are those of all of them, in
order. -/
inductive ItemsOf (file : String) : List Node → List Item → List UnitFault → Prop where
  | nil : ItemsOf file [] [] []
  | cons {item : Item} (h : ItemOf file n item faults) (hs : ItemsOf file ns items more) :
      ItemsOf file (n :: ns) (item :: items) (faults ++ more)

/-- A list of items; what is no list has a fault. -/
inductive BodyOf (file : String) : Option Node → List Item → List UnitFault → Prop where
  | items (hnodes : Lists v nodes) (h : ItemsOf file nodes items faults) :
    BodyOf file v items faults
  | broken (hn : ∀ nodes, ¬ Lists (some n) nodes) (h : faults ≠ []) : BodyOf file (some n) [] faults

/-- The entries of a mapping that is written for a function. -/
inductive FunctionOf (file : String) : List (Node × Node) → Function → List UnitFault → Prop where
  | bare (hhead : FunctionHeadOf file faults entries head) (hbody : value? entries "body" = none) :
      FunctionOf file entries (.mk head none) faults
  | full {body : List Item} (hhead : FunctionHeadOf file faults entries head)
      (hn : value? entries "body" = some n) (hbody : BodyOf file (some n) body part)
      (hpart : part <:+: faults) : FunctionOf file entries (.mk head (some body)) faults

/-- Nodes that are written for functions, one for each. -/
inductive MethodsOf (file : String) : List Node → List Function → List UnitFault → Prop where
  | nil : MethodsOf file [] [] faults
  | cons (h : FunctionOf file entries f faults) (hs : MethodsOf file ns fs faults) :
      MethodsOf file (.mapping mark tag entries :: ns) (f :: fs) faults

/-- The entries of a mapping that is written for an arm of a match. -/
inductive ArmOf (file : String) : List (Node × Node) → Arm → List UnitFault → Prop where
  | intro {guard : Option Expr} {body : List Item}
    (hkeys : Keys faults ["pattern", "body", "guard"] entries)
      (hpattern : Given (PatternOf file faults) (value? entries "pattern") p)
      (hguard : Optional (ExprOf file faults) (value? entries "guard") guard)
      (hbody : BodyOf file (value? entries "body") body part) (hpart : part <:+: faults) :
      ArmOf file entries (.mk p guard body) faults

/-- Nodes that are written for the arms of a match, one for each. -/
inductive ArmsOf (file : String) : List Node → List Arm → List UnitFault → Prop where
  | nil : ArmsOf file [] [] faults
  | cons {arms : List Arm} (h : ArmOf file entries a faults) (hs : ArmsOf file ns arms faults) :
      ArmsOf file (.mapping mark tag entries :: ns) (a :: arms) faults

end

end UnitCheck.Reading
