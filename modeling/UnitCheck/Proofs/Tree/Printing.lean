import Mathlib.Data.List.Forall2
import UnitCheck.Proofs.Tree.Grammar
import UnitCheck.Proofs.Tree.Lexemes

/-!
# The text of a type annotation, read back

Between the text of an annotation and its tree are the kinds of its lexemes, `TypeExpr.kinds`. The
text is split into lexemes of these kinds (`prints_text`), and lexemes of these kinds derive the
tree again (`derives_of_kinds`), up to two things that a text does not tell: the places of its
parts, and whether the result `()` of a function was given. `TypeExpr.plain` leaves both out.

One tree is not found again: behind `&`, a name that starts with `mut` is taken for the modifier,
and then a type is missing (`not_hidesMut_of_derives`). Such a tree comes from a text that has the
name in parentheses. -/

namespace UnitCheck.TypeExpr

open Lexeme List LexemeKind

variable {ls : List Lexeme} {pos base : Position} {mutable : Bool} {lifetime : Option String}
  {t inner a : TypeExpr}
  {length : Option Int} {elems ts : List TypeExpr}

/-! ## Trees and their lexemes -/

mutual

/-- An annotation and all annotations inside it. -/
def parts : TypeExpr → List TypeExpr
  | named path args pos => named path args pos :: listParts args
  | array elem length pos => array elem length pos :: elem.parts
  | tuple elems pos => tuple elems pos :: listParts elems
  | func params result pos => func params result pos :: (listParts params ++ resultParts result)
  | ref inner mutable lifetime pos => ref inner mutable lifetime pos :: inner.parts

def listParts : List TypeExpr → List TypeExpr
  | [] => []
  | t :: rest => t.parts ++ listParts rest

def resultParts : Option TypeExpr → List TypeExpr
  | none => []
  | some t => t.parts

end

mutual

/-- An annotation without its places; a function always has a result. -/
def plain : TypeExpr → TypeExpr
  | named path args _ => named path (plains args) default
  | array elem length _ => array elem.plain length default
  | tuple elems _ => tuple (plains elems) default
  | func params result _ => func (plains params) (some (plainResult result)) default
  | ref inner mutable lifetime _ => ref inner.plain mutable lifetime default

def plains : List TypeExpr → List TypeExpr
  | [] => []
  | t :: rest => t.plain :: plains rest

def plainResult : Option TypeExpr → TypeExpr
  | none => tuple [] default
  | some t => t.plain

end

/-- A reference that is not `mut`, to a type whose name starts with `mut`. -/
def HidesMut (t : TypeExpr) : Prop :=
  ∃ more args pos lifetime pos', t = .ref (.named ("mut" :: more) args pos) false lifetime pos'

/-- What is true of every part of an annotation that has been read: names are names, `fn` does not
start a path, a length is within its range, and no tuple has one element. -/
def Written : TypeExpr → Prop
  | named path _ _ =>
    (∃ first more, path = first :: more ∧ first ≠ "fn") ∧ ∀ n ∈ path, Text.isName n = true
  | array _ length _ => ∀ n ∈ length, ∃ m : Nat, n = m ∧ m < Nat.pow 2 63
  | tuple elems _ => elems.length ≠ 1
  | func _ _ _ => True
  | ref _ _ lifetime _ => ∀ n ∈ lifetime, Text.isName n = true

/-- The kinds of the lexemes between `&` and the target of a reference. -/
def refKinds (mutable : Bool) (lifetime : Option String) : List LexemeKind :=
  (match lifetime with
    | some l => [.symbol '\'', .name l]
    | none => []) ++ (if mutable then [.name "mut"] else [])

def lengthKinds : Option Int → List LexemeKind
  | some n => [.symbol ';', .integer (toString n)]
  | none => []

def pathKinds (path : List String) : List LexemeKind :=
  [symbol '.'].intercalate (path.map fun n => [.name n])

def argsKinds : List (List LexemeKind) → List LexemeKind
  | [] => []
  | args => .symbol '<' :: ([symbol ','].intercalate args ++ [.symbol '>'])

mutual

/-- The kinds of the lexemes of the text of an annotation. -/
def kinds : TypeExpr → List LexemeKind
  | named path args _ => pathKinds path ++ argsKinds (kindLists args)
  | array elem length _ => .symbol '[' :: (elem.kinds ++ (lengthKinds length ++ [.symbol ']']))
  | tuple elems _ => .symbol '(' :: ([symbol ','].intercalate (kindLists elems) ++ [.symbol ')'])
  | func params result _ => .name "fn" :: .symbol '(' ::
    ([symbol ','].intercalate (kindLists params) ++
      .symbol ')' :: .symbol '-' :: .symbol '>' :: resultKinds result)
  | ref inner mutable lifetime _ => .symbol '&' :: (refKinds mutable lifetime ++ inner.kinds)

def kindLists : List TypeExpr → List (List LexemeKind)
  | [] => []
  | t :: rest => t.kinds :: kindLists rest

def resultKinds : Option TypeExpr → List LexemeKind
  | none => [.symbol '(', .symbol ')']
  | some t => t.kinds

end

theorem mem_parts_self (t : TypeExpr) : t ∈ t.parts := by
  cases t <;> simp [parts]

theorem plains_eq_map (ts : List TypeExpr) : plains ts = ts.map plain := by
  induction ts with
  | nil => rfl
  | cons t ts ih => rw [plains, ih, map_cons]

theorem length_eq_of_plains {ts' : List TypeExpr} (h : plains ts' = plains ts) :
    ts'.length = ts.length := by
  simpa [plains_eq_map] using congrArg List.length h

/-! ## What is read is written so -/

theorem Segments.isName {names : List String} (h : Segments ls names) (hls : ∀ l ∈ ls, l.Proper) :
    ∀ n ∈ names, Text.isName n = true := by
  induction h with
  | nil => simp
  | @dot n ls names c d more ih =>
    have hn : Text.isName n = true := hls ⟨.name n, d⟩ (by simp)
    have hmore := ih fun l hl => hls l (by simp [hl])
    exact forall_mem_cons.mpr ⟨hn, hmore⟩
  | @colons n ls names c c' d more ih =>
    have hn : Text.isName n = true := hls ⟨.name n, d⟩ (by simp)
    have hmore := ih fun l hl => hls l (by simp [hl])
    exact forall_mem_cons.mpr ⟨hn, hmore⟩

theorem Lifetime.isName {l : Option String} (h : Lifetime ls l) (hls : ∀ l ∈ ls, l.Proper) :
    ∀ n ∈ l, Text.isName n = true := by
  cases h with
  | absent => simp
  | given n c d =>
    have hn : Text.isName n = true := hls ⟨.name n, d⟩ (by simp)
    simpa using hn

theorem Length.range (h : Length ls length) (hls : ∀ l ∈ ls, l.Proper) :
    ∀ n ∈ length, ∃ m : Nat, n = m ∧ m < Nat.pow 2 63 := by
  cases h with
  | absent => simp
  | @given text n c d hreads =>
    have hproper : Lexeme.Proper ⟨.integer text, d⟩ := hls _ (by simp)
    obtain ⟨digit, rest, htext, hdigit⟩ := hproper
    rw [htext] at hreads
    simpa using Number.readDecimal?_range hdigit hreads

theorem parenthesis_of_length_ne_one (h : elems.length ≠ 1) :
    parenthesis pos elems = .tuple elems pos := by
  unfold parenthesis
  split
  · exact absurd rfl h
  · rfl

theorem parenthesis_written (h : ∀ a ∈ listParts elems, a.Written) :
    ∀ a ∈ (parenthesis pos elems).parts, a.Written := by
  unfold parenthesis
  split
  · simpa [listParts] using h
  next hmany =>
    rw [parts, forall_mem_cons]
    refine ⟨?_, h⟩
    intro hone
    obtain ⟨t, rfl⟩ := length_eq_one_iff.mp hone
    exact hmany t rfl

mutual

/-- Every part of a tree that is derived from the lexemes of a text is `Written`. -/
theorem Derives.written {base : Position} {ls : List Lexeme} {t : TypeExpr} :
    Derives base ls t → (∀ l ∈ ls, l.Proper) → ∀ a ∈ t.parts, a.Written
  | .ref c hlife hmods hinner _, hls => by
    have hname := hlife.isName fun l hl => hls l (by simp [hl])
    have hparts := hinner.written fun l hl => hls l (by simp [hl])
    rw [parts, forall_mem_cons]
    exact ⟨hname, hparts⟩
  | .array c d helem hlen, hls => by
    have hrange := hlen.range fun l hl => hls l (by simp [hl])
    have hparts := helem.written fun l hl => hls l (by simp [hl])
    rw [parts, forall_mem_cons]
    exact ⟨hrange, hparts⟩
  | .paren c d helems, hls => parenthesis_written (helems.written fun l hl => hls l (by simp [hl]))
  | .func c d e hparams hresult, hls => by
    have hparts := hparams.written fun l hl => hls l (by simp [hl])
    have hparts' := hresult.written fun l hl => hls l (by simp [hl])
    rw [parts, forall_mem_cons, forall_mem_append]
    exact ⟨trivial, hparts, hparts'⟩
  | @Derives.named _ n _ _ _ _ c hfirst hpath hargs, hls => by
    have hn : Text.isName n = true := hls ⟨.name n, c⟩ (by simp)
    have hnames := hpath.isName fun l hl => hls l (by simp [hl])
    have hparts := hargs.written fun l hl => hls l (by simp [hl])
    rw [parts, forall_mem_cons]
    exact ⟨⟨⟨_, _, rfl, hfirst⟩, forall_mem_cons.mpr ⟨hn, hnames⟩⟩, hparts⟩

theorem DerivesResult.written {base : Position} {ls : List Lexeme} {t : Option TypeExpr} :
    DerivesResult base ls t → (∀ l ∈ ls, l.Proper) → ∀ a ∈ resultParts t, a.Written
  | .absent, _ => by simp [resultParts]
  | .given _ _ ht, hls => ht.written fun l hl => hls l (by simp [hl])

theorem DerivesArgs.written {base : Position} {ls : List Lexeme} {ts : List TypeExpr} :
    DerivesArgs base ls ts → (∀ l ∈ ls, l.Proper) → ∀ a ∈ listParts ts, a.Written
  | .absent, _ => by simp [listParts]
  | .given _ _ hts, hls => hts.written fun l hl => hls l (by simp [hl])

theorem DerivesList.written {base : Position} {ls : List Lexeme} {ts : List TypeExpr} :
    DerivesList base ls ts → (∀ l ∈ ls, l.Proper) → ∀ a ∈ listParts ts, a.Written
  | .empty, _ => by simp [listParts]
  | .some hts, hls => hts.written hls

theorem DerivesItems.written {base : Position} {ls : List Lexeme} {ts : List TypeExpr} :
    DerivesItems base ls ts → (∀ l ∈ ls, l.Proper) → ∀ a ∈ listParts ts, a.Written
  | .one ht, hls => by
    have hparts := ht.written hls
    simpa [listParts] using hparts
  | .more _ ht hts, hls => by
    have hparts := ht.written fun l hl => hls l (by simp [hl])
    have hparts' := hts.written fun l hl => hls l (by simp [hl])
    rw [listParts, forall_mem_append]
    exact ⟨hparts, hparts'⟩

end

/-! ## The text has these lexemes -/

/-- The text is split into lexemes of these kinds in front of every text that does not go on with a
name. -/
def Prints (text : String) (kinds : List LexemeKind) : Prop :=
  ∀ ⦃rest : List Char⦄ ⦃more : List LexemeKind⦄, Splits rest more → Parted rest →
    Splits (text.toList ++ rest) (kinds ++ more)

theorem parted_nil : Parted [] := by simp [Parted]

theorem parted_cons {c : Char} (h : Text.continuesName c = false) (rest : List Char) :
    Parted (c :: rest) := by
  simp [Parted, h]

/-- Texts with separators between them. -/
theorem Prints.intercalate {separator : String} {mark : List LexemeKind} {texts : List String}
    {kinds : List (List LexemeKind)} (h : List.Forall₂ Prints texts kinds)
    (hmark : ∀ ⦃rest : List Char⦄ ⦃more : List LexemeKind⦄, Splits rest more →
      Splits (separator.toList ++ rest) (mark ++ more))
    (hparted : ∀ rest, Parted (separator.toList ++ rest)) :
    Prints (separator.intercalate texts) (mark.intercalate kinds) := by
  induction h with
  | nil =>
    intro rest more hrest _
    simpa using hrest
  | @cons text ks texts kinds hfirst hmore ih =>
    cases hmore with
    | nil =>
      rw [String.intercalate_singleton, intercalate_singleton]
      exact hfirst
    | cons hsecond hmore =>
      intro rest more hrest hafter
      rw [String.intercalate_cons_cons, intercalate_cons_cons]
      simp only [String.toList_append, append_assoc]
      exact hfirst (hmark (ih hrest hafter)) (hparted _)

theorem prints_name {n : String} (h : Text.isName n = true) : Prints n [.name n] :=
  fun _ _ hrest hafter => hrest.name h hafter

theorem prints_path {path : List String} (h : ∀ n ∈ path, Text.isName n = true) :
    Prints (Text.dotted path) (pathKinds path) := by
  refine Prints.intercalate ?_ (fun _ _ hrest => hrest.symbol (by decide))
    (fun rest => parted_cons (by decide) rest)
  rw [forall₂_map_right_iff, forall₂_same]
  exact fun n hn => prints_name (h n hn)

theorem prints_list {texts : List String} {kinds : List (List LexemeKind)}
    (h : List.Forall₂ Prints texts kinds) :
    Prints (", ".intercalate texts) ([symbol ','].intercalate kinds) :=
  Prints.intercalate h (fun _ _ hrest => hrest.blank.symbol (by decide))
    (fun rest => parted_cons (by decide) _)

/-- The text between `&` and the target of a reference. -/
theorem splits_refMark {rest : List Char} {more : List LexemeKind}
    (hlifetime : ∀ n ∈ lifetime, Text.isName n = true) (hrest : Splits rest more) :
    Splits ((refMark mutable lifetime).toList ++ rest)
      (.symbol '&' :: (refKinds mutable lifetime ++ more)) := by
  have hmut : Splits ((if mutable then "mut " else "").toList ++ rest)
      ((if mutable then [.name "mut"] else []) ++ more) := by
    split
    · exact Splits.name (n := "mut") hrest.blank (by decide) (parted_cons (by decide) rest)
    · exact hrest
  cases lifetime with
  | none => simpa [refMark, refKinds] using hmut.symbol (c := '&') (by decide)
  | some l =>
    have hname := hmut.blank.name (hlifetime l rfl) (parted_cons (by decide) _)
    have hlife := (hname.symbol (c := '\'') (by decide)).symbol (c := '&') (by decide)
    simpa [refMark, refKinds] using hlife

mutual

/-- The text of a type consists of its lexemes, by induction on the type. -/
theorem prints_text : (t : TypeExpr) → (∀ a ∈ t.parts, a.Written) → Prints t.text t.kinds
  | named path args pos, h => by
    rw [parts, forall_mem_cons] at h
    intro rest more hrest hafter
    have hpath := prints_path h.1.2
    have hargs := prints_list (prints_texts args h.2)
    cases args with
    | nil => simpa [text, kinds, kindLists, argsKinds] using hpath hrest hafter
    | cons arg args =>
      -- lexemes are put in front one by one, from the last to the first
      have hclose := hrest.symbol (c := '>') (by decide)
      have hopen := (hargs hclose (parted_cons (by decide) rest)).symbol (c := '<') (by decide)
      simpa [text, kinds, kindLists, argsKinds] using hpath hopen (parted_cons (by decide) _)
  | array elem length pos, h => by
    rw [parts, forall_mem_cons] at h
    intro rest more hrest hafter
    have helem := prints_text elem h.2
    have hclose := hrest.symbol (c := ']') (by decide)
    cases length with
    | none =>
      have hopen := (helem hclose (parted_cons (by decide) rest)).symbol (c := '[') (by decide)
      simpa [text, kinds, lengthKinds] using hopen
    | some n =>
      obtain ⟨m, rfl, -⟩ := h.1 n rfl
      have hlength := (hclose.integer m).blank.symbol (c := ';') (by decide)
      have hopen := (helem hlength (parted_cons (by decide) _)).symbol (c := '[') (by decide)
      have hrepr : (m : Int).repr = m.repr := rfl
      simpa [text, kinds, lengthKinds, hrepr] using hopen
  | tuple elems pos, h => by
    rw [parts, forall_mem_cons] at h
    intro rest more hrest hafter
    have helems := prints_list (prints_texts elems h.2)
    have hclose := hrest.symbol (c := ')') (by decide)
    have hlist := helems hclose (parted_cons (by decide) rest)
    simpa [text, kinds] using hlist.symbol (c := '(') (by decide)
  | func params result pos, h => by
    rw [parts, forall_mem_cons, forall_mem_append] at h
    intro rest more hrest hafter
    have hparams := prints_list (prints_texts params h.2.1)
    have hresult := (prints_result result h.2.2 hrest hafter).blank
    have harrow := (hresult.symbol (c := '>') (by decide)).symbol (c := '-') (by decide)
    have hclose := harrow.blank.symbol (c := ')') (by decide)
    have hopen := (hparams hclose (parted_cons (by decide) _)).symbol (c := '(') (by decide)
    have hfn := Splits.name (n := "fn") hopen (by decide) (parted_cons (by decide) _)
    simpa [text, kinds] using hfn
  | ref inner mutable lifetime pos, h => by
    rw [parts, forall_mem_cons] at h
    intro rest more hrest hafter
    have hinner := prints_text inner h.2 hrest hafter
    simpa [text, kinds] using splits_refMark h.1 hinner

theorem prints_texts : (ts : List TypeExpr) → (∀ a ∈ listParts ts, a.Written) →
    List.Forall₂ Prints (texts ts) (kindLists ts)
  | [], _ => .nil
  | t :: ts, h => by
    rw [listParts, forall_mem_append] at h
    exact .cons (prints_text t h.1) (prints_texts ts h.2)

theorem prints_result : (t : Option TypeExpr) → (∀ a ∈ resultParts t, a.Written) →
    Prints (resultText t) (resultKinds t)
  | none, _ => fun _ _ hrest _ => (hrest.symbol (by decide)).symbol (by decide)
  | some t, h => prints_text t h

end

theorem kinds_split_text (h : ∀ a ∈ t.parts, a.Written) :
    (split t.text).map Lexeme.kind = t.kinds := by
  have hsplits := prints_text t h Splits.nil parted_nil
  rw [append_nil, append_nil] at hsplits
  exact hsplits.kinds_split

/-! ## Lexemes of these kinds derive the tree -/

theorem map_kind_eq_cons {kind : LexemeKind} {kinds : List LexemeKind}
    (h : ls.map Lexeme.kind = kind :: kinds) :
    ∃ c tail, ls = ⟨kind, c⟩ :: tail ∧ tail.map Lexeme.kind = kinds := by
  obtain ⟨l, tail, rfl, rfl, htail⟩ := map_eq_cons_iff.mp h
  exact ⟨l.column, tail, rfl, htail⟩

theorem segments_of_kinds {first : String} {more : List String}
    (h : ls.map Lexeme.kind = pathKinds (first :: more)) :
    ∃ c tail, ls = ⟨.name first, c⟩ :: tail ∧ Segments tail more := by
  induction more generalizing first ls with
  | nil =>
    obtain ⟨c, tail, rfl, htail⟩ := map_kind_eq_cons h
    rw [map_eq_nil_iff.mp htail]
    exact ⟨c, [], rfl, .nil⟩
  | cons second more ih =>
    obtain ⟨c, ls', rfl, h'⟩ := map_kind_eq_cons h
    obtain ⟨d, ls'', rfl, h''⟩ := map_kind_eq_cons h'
    obtain ⟨e, tail, rfl, hsegments⟩ := ih h''
    exact ⟨c, _, rfl, .dot d e hsegments⟩

/-- The lexemes of a reference up to what it refers to. -/
theorem lifetime_of_kinds (h : ls.map Lexeme.kind = refKinds mutable lifetime) :
    ∃ life mods, ls = life ++ mods ∧ Lifetime life lifetime ∧ Modifier mods mutable := by
  obtain ⟨life, mods, rfl, hlife, hmods⟩ := map_eq_append_iff.mp h
  refine ⟨life, mods, rfl, ?_, ?_⟩
  · cases lifetime with
    | none =>
      rw [map_eq_nil_iff.mp hlife]
      exact .absent
    | some l =>
      obtain ⟨c, ls', rfl, hlife'⟩ := map_kind_eq_cons hlife
      obtain ⟨d, ls'', rfl, hnil⟩ := map_kind_eq_cons hlife'
      rw [map_eq_nil_iff.mp hnil]
      exact .given l c d
  · cases mutable with
    | false =>
      rw [map_eq_nil_iff.mp hmods]
      exact .absent
    | true =>
      obtain ⟨c, ls', rfl, hnil⟩ := map_kind_eq_cons hmods
      rw [map_eq_nil_iff.mp hnil]
      exact .given c

theorem length_of_kinds (hlength : ∀ n ∈ length, ∃ m : Nat, n = m ∧ m < Nat.pow 2 63)
    (h : ls.map Lexeme.kind = lengthKinds length) : Length ls length := by
  cases length with
  | none =>
    rw [map_eq_nil_iff.mp h]
    exact .absent
  | some n =>
    obtain ⟨m, rfl, hm⟩ := hlength n rfl
    obtain ⟨c, ls', rfl, h'⟩ := map_kind_eq_cons h
    obtain ⟨d, ls'', rfl, hnil⟩ := map_kind_eq_cons h'
    rw [map_eq_nil_iff.mp hnil]
    exact .given c d (Number.readDecimal?_repr hm)

theorem named_of_kinds {first : String} {more : List String} {args : List TypeExpr}
    (h : ls.map Lexeme.kind = (named (first :: more) args pos).kinds) :
    ∃ c path list, ls = ⟨.name first, c⟩ :: (path ++ list) ∧ Segments path more ∧
      list.map Lexeme.kind = argsKinds (kindLists args) := by
  obtain ⟨ls₁, list, rfl, hpath, hlist⟩ := map_eq_append_iff.mp h
  obtain ⟨c, path, rfl, hsegments⟩ := segments_of_kinds hpath
  exact ⟨c, path, list, rfl, hsegments, hlist⟩

theorem enclosed_of_kinds {first last : LexemeKind} {inner : List LexemeKind}
    (h : ls.map Lexeme.kind = first :: (inner ++ [last])) :
    ∃ c d items, ls = ⟨first, c⟩ :: (items ++ [⟨last, d⟩]) ∧ items.map Lexeme.kind = inner := by
  obtain ⟨c, ls', rfl, h'⟩ := map_kind_eq_cons h
  obtain ⟨items, close, rfl, hitems, hclose⟩ := map_eq_append_iff.mp h'
  obtain ⟨d, tail, rfl, hnil⟩ := map_kind_eq_cons hclose
  rw [map_eq_nil_iff.mp hnil]
  exact ⟨c, d, items, rfl, hitems⟩

theorem args_of_kinds {arg : TypeExpr} {args : List TypeExpr}
    (h : ls.map Lexeme.kind = argsKinds (kindLists (arg :: args))) :
    ∃ c d items, ls = ⟨.symbol '<', c⟩ :: (items ++ [⟨.symbol '>', d⟩]) ∧
      items.map Lexeme.kind = [symbol ','].intercalate (kindLists (arg :: args)) :=
  enclosed_of_kinds h

theorem array_of_kinds {elem : TypeExpr}
    (hlength : ∀ n ∈ length, ∃ m : Nat, n = m ∧ m < Nat.pow 2 63)
    (h : ls.map Lexeme.kind = (array elem length pos).kinds) :
    ∃ c d ms len, ls = ⟨.symbol '[', c⟩ :: (ms ++ (len ++ [⟨.symbol ']', d⟩])) ∧
      ms.map Lexeme.kind = elem.kinds ∧ Length len length := by
  rw [kinds, ← append_assoc] at h
  obtain ⟨c, d, items, rfl, hitems⟩ := enclosed_of_kinds h
  obtain ⟨ms, len, rfl, helem, hlen⟩ := map_eq_append_iff.mp hitems
  exact ⟨c, d, ms, len, by rw [append_assoc], helem, length_of_kinds hlength hlen⟩

theorem tuple_of_kinds (h : ls.map Lexeme.kind = (tuple elems pos).kinds) :
    ∃ c d items, ls = ⟨.symbol '(', c⟩ :: (items ++ [⟨.symbol ')', d⟩]) ∧
      items.map Lexeme.kind = [symbol ','].intercalate (kindLists elems) :=
  enclosed_of_kinds h

/-- The lexemes of a function type, taken apart. -/
theorem func_of_kinds {params : List TypeExpr} {result : Option TypeExpr}
    (h : ls.map Lexeme.kind = (func params result pos).kinds) :
    ∃ c d e f g items res, ls = ⟨.name "fn", c⟩ :: ⟨.symbol '(', d⟩ ::
        (items ++ ⟨.symbol ')', e⟩ :: ⟨.symbol '-', f⟩ :: ⟨.symbol '>', g⟩ :: res) ∧
      items.map Lexeme.kind = [symbol ','].intercalate (kindLists params) ∧
      res.map Lexeme.kind = resultKinds result := by
  obtain ⟨c, ls₁, rfl, h₁⟩ := map_kind_eq_cons h
  obtain ⟨d, ls₂, rfl, h₂⟩ := map_kind_eq_cons h₁
  obtain ⟨items, ls₃, rfl, hparams, h₃⟩ := map_eq_append_iff.mp h₂
  obtain ⟨e, ls₄, rfl, h₄⟩ := map_kind_eq_cons h₃
  obtain ⟨f, ls₅, rfl, h₅⟩ := map_kind_eq_cons h₄
  obtain ⟨g, res, rfl, hresult⟩ := map_kind_eq_cons h₅
  exact ⟨c, d, e, f, g, items, res, rfl, hparams, hresult⟩

theorem ref_of_kinds (h : ls.map Lexeme.kind = (ref inner mutable lifetime pos).kinds) :
    ∃ c life mods ms, ls = ⟨.symbol '&', c⟩ :: (life ++ (mods ++ ms)) ∧ Lifetime life lifetime ∧
      Modifier mods mutable ∧ ms.map Lexeme.kind = inner.kinds := by
  obtain ⟨c, ls', rfl, h'⟩ := map_kind_eq_cons h
  obtain ⟨marks, ms, rfl, hmarks, hinner⟩ := map_eq_append_iff.mp h'
  obtain ⟨life, mods, rfl, hlife, hmods⟩ := lifetime_of_kinds hmarks
  exact ⟨c, life, mods, ms, by rw [append_assoc], hlife, hmods, hinner⟩

theorem list_of_kinds {u : TypeExpr}
    (h : ls.map Lexeme.kind = [symbol ','].intercalate (kindLists (t :: u :: ts))) :
    ∃ c first more, ls = first ++ ⟨.symbol ',', c⟩ :: more ∧ first.map Lexeme.kind = t.kinds ∧
      more.map Lexeme.kind = [symbol ','].intercalate (kindLists (u :: ts)) := by
  obtain ⟨first, ls', rfl, hfirst, h'⟩ := map_eq_append_iff.mp h
  obtain ⟨c, more, rfl, hmore⟩ := map_kind_eq_cons h'
  exact ⟨c, first, more, rfl, hfirst, hmore⟩

/-- Where a type starts with `mut`, that is the first name of its path. -/
theorem named_of_startsMut (ht : t.Written) (h : ls.map Lexeme.kind = t.kinds)
    (hmut : StartsMut ls) :
    ∃ more args pos, t = .named ("mut" :: more) args pos := by
  obtain ⟨c, tail, rfl⟩ := hmut
  cases t with
  | named path args pos =>
    obtain ⟨⟨first, more, rfl, -⟩, -⟩ := ht
    obtain ⟨d, path, list, hls, -, -⟩ := named_of_kinds h
    obtain rfl : "mut" = first := by simpa using congrArg Lexeme.kind (List.cons.inj hls).1
    exact ⟨more, args, pos, rfl⟩
  | array elem length pos => simp [kinds] at h
  | tuple elems pos => simp [kinds] at h
  | func params result pos => simp [kinds] at h
  | ref inner mutable lifetime pos => simp [kinds] at h

/-- The target of a reference does not look like the modifier, if no `mut` is hidden there. -/
theorem not_startsMut (ht : inner.Written) (h : ls.map Lexeme.kind = inner.kinds)
    (hshown : ¬ (ref inner mutable lifetime pos).HidesMut) : mutable = false → ¬ StartsMut ls := by
  rintro rfl hmut
  obtain ⟨more, args, pos', rfl⟩ := named_of_startsMut ht h hmut
  exact hshown ⟨more, args, pos', lifetime, pos, rfl⟩

mutual

/-- Lexemes of the kinds of a tree derive it, if no part of it hides a `mut`. -/
theorem derives_of_kinds (base : Position) : (t : TypeExpr) → (∀ a ∈ t.parts, a.Written) →
    (∀ a ∈ t.parts, ¬ a.HidesMut) → {ls : List Lexeme} → ls.map Lexeme.kind = t.kinds →
      ∃ t', Derives base ls t' ∧ t'.plain = t.plain
  | named path args pos, hw, hm, ls, h => by
    rw [parts, forall_mem_cons] at hw hm
    obtain ⟨⟨⟨first, more, rfl, hfirst⟩, -⟩, hargs⟩ := hw
    obtain ⟨c, path, list, rfl, hsegments, hlist⟩ := named_of_kinds h
    cases args with
    | nil =>
      rw [map_eq_nil_iff.mp hlist]
      exact ⟨_, .named c hfirst hsegments .absent, rfl⟩
    | cons arg args =>
      obtain ⟨d, e, items, rfl, hitems⟩ := args_of_kinds hlist
      obtain ⟨args', hargs', hplain⟩ := derivesList_of_kinds base (arg :: args) hargs hm.2 hitems
      exact ⟨_, .named c hfirst hsegments (.given d e hargs'), by rw [plain, plain, hplain]⟩
  | array elem length pos, hw, hm, ls, h => by
    rw [parts, forall_mem_cons] at hw hm
    obtain ⟨c, d, ms, len, rfl, helem, hlength⟩ := array_of_kinds hw.1 h
    obtain ⟨elem', helem', hplain⟩ := derives_of_kinds base elem hw.2 hm.2 helem
    exact ⟨_, .array c d helem' hlength, by rw [plain, plain, hplain]⟩
  | tuple elems pos, hw, hm, ls, h => by
    rw [parts, forall_mem_cons] at hw hm
    obtain ⟨c, d, items, rfl, helems⟩ := tuple_of_kinds h
    obtain ⟨elems', helems', hplain⟩ := derivesList_of_kinds base elems hw.2 hm.2 helems
    refine ⟨_, .paren c d helems', ?_⟩
    -- one element in parentheses would be read as that element
    have hmany : elems'.length ≠ 1 := by
      rw [length_eq_of_plains hplain]
      exact hw.1
    rw [parenthesis_of_length_ne_one hmany, plain, plain, hplain]
  | func params result pos, hw, hm, ls, h => by
    rw [parts, forall_mem_cons, forall_mem_append] at hw hm
    obtain ⟨c, d, e, f, g, items, res, rfl, hparams, hresult⟩ := func_of_kinds h
    obtain ⟨params', hparams', hplain⟩ := derivesList_of_kinds base params hw.2.1 hm.2.1 hparams
    obtain ⟨result', hresult', hplain'⟩ := derivesResult_of_kinds base result hw.2.2 hm.2.2 hresult
    refine ⟨_, .func c d e hparams' (.given f g hresult'), ?_⟩
    rw [plain, plain, hplain, plainResult, hplain']
  | ref inner mutable lifetime pos, hw, hm, ls, h => by
    rw [parts, forall_mem_cons] at hw hm
    obtain ⟨c, life, mods, ms, rfl, hlife, hmods, hinner⟩ := ref_of_kinds h
    obtain ⟨inner', hinner', hplain⟩ := derives_of_kinds base inner hw.2 hm.2 hinner
    have hfirst := not_startsMut (hw.2 inner (mem_parts_self inner)) hinner hm.1
    exact ⟨_, .ref c hlife hmods hinner' hfirst, by rw [plain, plain, hplain]⟩

/-- Lexemes of the right kinds derive the types that they were made from, up to positions. -/
theorem derivesList_of_kinds (base : Position) : (ts : List TypeExpr) →
      (∀ a ∈ listParts ts, a.Written) →
    (∀ a ∈ listParts ts, ¬ a.HidesMut) → {ls : List Lexeme} →
    ls.map Lexeme.kind = [symbol ','].intercalate (kindLists ts) →
      ∃ ts', DerivesList base ls ts' ∧ plains ts' = plains ts
  | [], _, _, ls, h => by
    rw [map_eq_nil_iff.mp h]
    exact ⟨[], .empty, rfl⟩
  | [t], hw, hm, ls, h => by
    rw [listParts, forall_mem_append] at hw hm
    obtain ⟨t', ht', hplain⟩ := derives_of_kinds base t hw.1 hm.1 (by simpa [kindLists] using h)
    exact ⟨[t'], .some (.one ht'), by simp [plains, hplain]⟩
  | t :: u :: ts, hw, hm, ls, h => by
    rw [listParts, forall_mem_append] at hw hm
    obtain ⟨c, first, more, rfl, hfirst, hmore⟩ := list_of_kinds h
    obtain ⟨t', ht', hplain⟩ := derives_of_kinds base t hw.1 hm.1 hfirst
    obtain ⟨ts', hts', hplains⟩ := derivesList_of_kinds base (u :: ts) hw.2 hm.2 hmore
    cases hts' with
    | empty => simp [plains] at hplains
    | some hts' =>
      exact ⟨t' :: ts', .some (.more c ht' hts'), by rw [plains, plains, hplain, hplains]⟩

theorem derivesResult_of_kinds (base : Position) : (t : Option TypeExpr) →
    (∀ a ∈ resultParts t, a.Written) → (∀ a ∈ resultParts t, ¬ a.HidesMut) → {ls : List Lexeme} →
    ls.map Lexeme.kind = resultKinds t → ∃ t', Derives base ls t' ∧ t'.plain = plainResult t
  | none, _, _, ls, h => by
    obtain ⟨c, ls₁, rfl, h₁⟩ := map_kind_eq_cons h
    obtain ⟨d, ls₂, rfl, hnil⟩ := map_kind_eq_cons h₁
    rw [map_eq_nil_iff.mp hnil]
    exact ⟨_, .paren c d .empty, rfl⟩
  | some t, hw, hm, ls, h => derives_of_kinds base t hw hm h

end

/-! ## A hidden `mut` is not found again

In a derivation, a type starts behind each `&` and what belongs to it. In the lexemes of a tree that
hides a `mut` none does: the name is taken for the modifier, and the rest of its path is left. -/

/-- Behind each `&` a lifetime and a modifier may be given, and then a type starts, with no `mut`
that could be the modifier. -/
def Referring (ls : List Lexeme) : Prop :=
  ∀ before c tail, ls = before ++ ⟨.symbol '&', c⟩ :: tail → ∃ life lifetime mods mutable l more,
    tail = life ++ (mods ++ l :: more) ∧ Lifetime life lifetime ∧ Modifier mods mutable ∧
    (mutable = false → l.kind ≠ .name "mut") ∧ ∀ symbol, l.kind = .symbol symbol →
    symbol ∈ ['&', '[', '(']

theorem referring_nil : Referring [] := fun _ _ _ heq => by simp at heq

theorem Referring.cons {l : Lexeme} (h : Referring ls) (hl : l.kind ≠ .symbol '&') :
    Referring (l :: ls) := by
  intro before c tail heq
  cases before with
  | nil =>
    obtain ⟨rfl, -⟩ := List.cons.inj heq
    exact absurd rfl hl
  | cons _ before => exact h before c tail (List.cons.inj heq).2

theorem Referring.append {ms : List Lexeme} (h : Referring ls) (h' : Referring ms) :
    Referring (ls ++ ms) := by
  intro before c tail heq
  rcases append_eq_append_iff.mp heq with ⟨between, rfl, hms⟩ | ⟨between, rfl, hms⟩
  · exact h' between c tail hms
  cases between with
  | nil => exact h' [] c tail hms.symm
  | cons l between =>
    obtain ⟨rfl, rfl⟩ := List.cons.inj hms
    obtain ⟨life, lifetime, mods, mutable, l, more, rfl, hrest⟩ := h before c between rfl
    exact ⟨life, lifetime, mods, mutable, l, more ++ ms, by simp, hrest⟩

theorem Segments.referring {names : List String} (h : Segments ls names) : Referring ls := by
  induction h with
  | nil => exact referring_nil
  | dot c d _ ih => exact (ih.cons (by simp)).cons (by simp)
  | colons c c' d _ ih => exact ((ih.cons (by simp)).cons (by simp)).cons (by simp)

theorem Lifetime.referring (h : Lifetime ls lifetime) : Referring ls := by
  cases h with
  | absent => exact referring_nil
  | given n c d => exact (referring_nil.cons (by simp)).cons (by simp)

theorem Modifier.referring (h : Modifier ls mutable) : Referring ls := by
  cases h with
  | absent => exact referring_nil
  | given c => exact referring_nil.cons (by simp)

theorem Length.referring (h : Length ls length) : Referring ls := by
  cases h with
  | absent => exact referring_nil
  | given c d _ => exact (referring_nil.cons (by simp)).cons (by simp)

mutual

/-- What stands behind the ampersands of a type that is derived. -/
theorem Derives.referring {base : Position} {ls : List Lexeme} {t : TypeExpr} :
    Derives base ls t → Referring ls
  | .ref c hlife hmods hinner hmut => by
    have hbehind := hlife.referring.append (hmods.referring.append hinner.referring)
    obtain ⟨l, more, rfl, hstart⟩ := hinner.first
    intro before d tail heq
    cases before with
    | cons _ before => exact hbehind before d tail (List.cons.inj heq).2
    | nil =>
      obtain ⟨-, rfl⟩ := List.cons.inj heq
      refine ⟨_, _, _, _, l, more, rfl, hlife, hmods, fun hfalse hkind => hmut hfalse ?_, hstart⟩
      exact ⟨l.column, more, by rw [← hkind]⟩
  | .array c d helem hlen =>
    (helem.referring.append (hlen.referring.append (referring_nil.cons (by simp)))).cons (by simp)
  | .paren c d helems => (helems.referring.append (referring_nil.cons (by simp))).cons (by simp)
  | .func c d e hparams hresult =>
    ((hparams.referring.append (hresult.referring.cons (by simp))).cons (by simp)).cons (by simp)
  | .named c _ hpath hargs => (hpath.referring.append hargs.referring).cons (by simp)

theorem DerivesResult.referring {base : Position} {ls : List Lexeme} {t : Option TypeExpr} :
    DerivesResult base ls t → Referring ls
  | .absent => referring_nil
  | .given c d ht => (ht.referring.cons (by simp)).cons (by simp)

theorem DerivesArgs.referring {base : Position} {ls : List Lexeme} {ts : List TypeExpr} :
    DerivesArgs base ls ts → Referring ls
  | .absent => referring_nil
  | .given c d hts => (hts.referring.append (referring_nil.cons (by simp))).cons (by simp)

theorem DerivesList.referring {base : Position} {ls : List Lexeme} {ts : List TypeExpr} :
    DerivesList base ls ts → Referring ls
  | .empty => referring_nil
  | .some hts => hts.referring

theorem DerivesItems.referring {base : Position} {ls : List Lexeme} {ts : List TypeExpr} :
    DerivesItems base ls ts → Referring ls
  | .one ht => ht.referring
  | .more c ht hts => ht.referring.append (hts.referring.cons (by simp))

end

/-- Nothing, or a symbol with which no type starts. -/
def Ended (kinds : List LexemeKind) : Prop :=
  ∀ kind ∈ kinds.head?, ∃ symbol, symbol ∉ ['&', '[', '('] ∧ kind = .symbol symbol

theorem ended_nil : Ended [] := by simp [Ended]

theorem ended_cons (symbol : Char) (h : symbol ∉ ['&', '[', '(']) (kinds : List LexemeKind) :
    Ended (.symbol symbol :: kinds) := by
  rintro kind ⟨⟩
  exact ⟨symbol, h, rfl⟩

/-- The kinds of the lexemes of `a` are among these, and no type starts behind them. -/
def Shown (a : TypeExpr) (kinds : List LexemeKind) : Prop :=
  ∃ before behind, kinds = before ++ (a.kinds ++ behind) ∧ Ended behind

theorem Shown.behind {kinds : List LexemeKind} (h : Shown a kinds) (before : List LexemeKind) :
    Shown a (before ++ kinds) := by
  obtain ⟨before', behind, rfl, hended⟩ := h
  exact ⟨before ++ before', behind, (append_assoc ..).symm, hended⟩

mutual

/-- The lexemes of every part of a type are among those of the type, and no type starts behind
them. -/
theorem shown_of_mem_parts {a : TypeExpr} : (t : TypeExpr) → a ∈ t.parts →
      {behind : List LexemeKind} →
    Ended behind → Shown a (t.kinds ++ behind)
  | named path args pos, ha, behind, hbehind => by
    rcases mem_cons.mp ha with rfl | ha
    · exact ⟨[], behind, rfl, hbehind⟩
    cases args with
    | nil => cases ha
    | cons arg args =>
      have hshown := shown_of_mem_listParts (arg :: args) ha (ended_cons '>' (by decide) behind)
      simpa [kinds, kindLists, argsKinds] using (hshown.behind [.symbol '<']).behind
        (pathKinds path)
  | array elem length pos, ha, behind, hbehind => by
    rcases mem_cons.mp ha with rfl | ha
    · exact ⟨[], behind, rfl, hbehind⟩
    have hended : Ended (lengthKinds length ++ .symbol ']' :: behind) := by
      cases length <;> exact ended_cons _ (by decide) _
    simpa [kinds] using (shown_of_mem_parts elem ha hended).behind [.symbol '[']
  | tuple elems pos, ha, behind, hbehind => by
    rcases mem_cons.mp ha with rfl | ha
    · exact ⟨[], behind, rfl, hbehind⟩
    have hshown := shown_of_mem_listParts elems ha (ended_cons ')' (by decide) behind)
    simpa [kinds] using hshown.behind [.symbol '(']
  | func params result pos, ha, behind, hbehind => by
    rcases mem_cons.mp ha with rfl | ha
    · exact ⟨[], behind, rfl, hbehind⟩
    rcases mem_append.mp ha with ha | ha
    · have hshown := shown_of_mem_listParts params ha (ended_cons ')' (by decide)
        (.symbol '-' :: .symbol '>' :: (resultKinds result ++ behind)))
      simpa [kinds] using hshown.behind [.name "fn", .symbol '(']
    · have hshown :=
        (shown_of_mem_resultParts result ha hbehind).behind (.name "fn" :: .symbol '(' ::
        ([symbol ','].intercalate (kindLists params) ++ [.symbol ')', .symbol '-', .symbol '>']))
      simpa [kinds] using hshown
  | ref inner mutable lifetime pos, ha, behind, hbehind => by
    rcases mem_cons.mp ha with rfl | ha
    · exact ⟨[], behind, rfl, hbehind⟩
    simpa [kinds] using
      (shown_of_mem_parts inner ha hbehind).behind (.symbol '&' :: refKinds mutable lifetime)

theorem shown_of_mem_listParts {a : TypeExpr} : (ts : List TypeExpr) → a ∈ listParts ts →
    {behind : List LexemeKind} → Ended behind →
      Shown a ([symbol ','].intercalate (kindLists ts) ++ behind)
  | [], ha, _, _ => by cases ha
  | [t], ha, behind, hbehind => by
    rw [listParts, listParts, append_nil] at ha
    simpa [kindLists] using shown_of_mem_parts t ha hbehind
  | t :: u :: ts, ha, behind, hbehind => by
    rw [kindLists, kindLists, intercalate_cons_cons, append_assoc, append_assoc]
    rcases mem_append.mp ha with ha | ha
    · exact shown_of_mem_parts t ha (ended_cons ',' (by decide) _)
    · exact ((shown_of_mem_listParts (u :: ts) ha hbehind).behind [.symbol ',']).behind t.kinds

theorem shown_of_mem_resultParts {a : TypeExpr} : (t : Option TypeExpr) → a ∈ resultParts t →
    {behind : List LexemeKind} → Ended behind → Shown a (resultKinds t ++ behind)
  | none, ha, _, _ => by cases ha
  | some t, ha, _, hbehind => shown_of_mem_parts t ha hbehind

end

/-- No type starts behind `mut` in a path. -/
theorem ended_behind_mut (pos : Position) (more : List String) (args : List TypeExpr)
    {behind : List LexemeKind} (h : Ended behind) :
    ∃ rest, (named ("mut" :: more) args pos).kinds ++ behind = .name "mut" :: rest ∧
      Ended rest := by
  cases more with
  | cons n more => exact ⟨_, rfl, ended_cons '.' (by decide) _⟩
  | nil =>
    cases args with
    | nil => exact ⟨behind, rfl, h⟩
    | cons arg args => exact ⟨_, rfl, ended_cons '<' (by decide) _⟩

/-- Lexemes of the kinds of a tree that hides a `mut` derive no tree. -/
theorem not_hidesMut_of_derives {t' : TypeExpr} (hderives : Derives base ls t')
    (h : ls.map Lexeme.kind = t.kinds) (ha : a ∈ t.parts) : ¬ a.HidesMut := by
  rintro ⟨more, args, pos, lifetime, pos', rfl⟩
  obtain ⟨before, behind, heq, hended⟩ := shown_of_mem_parts t ha ended_nil
  obtain ⟨rest, hrest, hended'⟩ := ended_behind_mut pos more args hended
  rw [append_nil, ← h, kinds, cons_append, append_assoc, hrest] at heq
  obtain ⟨_, ls', rfl, -, hls'⟩ := map_eq_append_iff.mp heq
  obtain ⟨c, tail, rfl, htail⟩ := map_kind_eq_cons hls'
  obtain ⟨life, l, mods, m, x, more', rfl, hlife, hmods, hmut, hstart⟩ :=
    hderives.referring _ c tail rfl
  -- what follows a modifier is not the start of a type, and if there is none it is a name that
  -- could be one
  have hno : ∀ {xs : List LexemeKind}, x.kind :: xs ≠ rest := by
    rintro xs rfl
    obtain ⟨symbol, hno, hkind⟩ := hended' x.kind rfl
    exact hno (hstart symbol hkind)
  cases lifetime <;> cases hlife <;> cases hmods <;> simp [refKinds] at htail
  · exact hmut rfl htail.1
  · exact hno htail
  · simpa using hstart _ htail.1
  · exact hmut rfl htail.2.1
  · exact hno htail.2

/-! ## Reading back -/

/-- The text of an annotation is read as that annotation, unless a `mut` is hidden in it. -/
theorem read_text (hw : ∀ a ∈ t.parts, a.Written) (place : Position) :
    ((∀ a ∈ t.parts, ¬ a.HidesMut) → ∃ t', read t.text place = .ok t' ∧ t'.plain = t.plain) ∧
    ((∃ a ∈ t.parts, a.HidesMut) → ∃ fault, read t.text place = .error fault) := by
  have hkinds := kinds_split_text hw
  constructor
  · intro hm
    obtain ⟨t', ht', hplain⟩ := derives_of_kinds place t hw hm hkinds
    exact ⟨t', ofLexemes_ok_iff.mpr ht', hplain⟩
  · rintro ⟨a, ha, hide⟩
    cases hread : read t.text place with
    | error fault => exact ⟨fault, rfl⟩
    | ok t' => exact absurd hide (not_hidesMut_of_derives (ofLexemes_ok_iff.mp hread) hkinds ha)

theorem written_of_read {text : String} (h : read text base = .ok t) : ∀ a ∈ t.parts, a.Written :=
  (ofLexemes_ok_iff.mp h).written fun _ hl => proper_of_mem_split hl

namespace Sample

theorem read_func : read "fn(&'a T)" ⟨"u", 1, 1⟩ =
    .ok (func [ref (named ["T"] [] ⟨"u", 1, 8⟩) false (some "a") ⟨"u", 1, 4⟩] none
      ⟨"u", 1, 1⟩) := by
  have hsplit :
    split "fn(&'a T)" = [⟨.name "fn", 1⟩, ⟨.symbol '(', 3⟩, ⟨.symbol '&', 4⟩, ⟨.symbol '\'', 5⟩,
      ⟨.name "a", 6⟩, ⟨.name "T", 8⟩, ⟨.symbol ')', 9⟩] := by decide +kernel
  refine ofLexemes_ok_iff.mpr ?_
  rw [hsplit]
  exact .func 1 3 9 (.some (.one (.ref 4 (.given "a" 5 6) .absent
    (.named 8 (by decide) .nil .absent) (by simp [StartsMut])))) .absent

theorem read_hidden : read "&(mut)" ⟨"u", 1, 1⟩ =
    .ok (ref (named ["mut"] [] ⟨"u", 1, 3⟩) false none ⟨"u", 1, 1⟩) := by
  have hsplit :
    split "&(mut)" = [⟨.symbol '&', 1⟩, ⟨.symbol '(', 2⟩, ⟨.name "mut", 3⟩, ⟨.symbol ')', 6⟩] := by
    decide +kernel
  refine ofLexemes_ok_iff.mpr ?_
  rw [hsplit]
  exact .ref 1 .absent .absent (.paren 2 6 (.some (.one (.named 3 (by decide) .nil .absent))))
    (by simp [StartsMut])

end Sample

/-- The text of an annotation that has been read is read as that annotation again, up to places and
up to a result `()` that was not given, exactly if no part of it is a reference without `mut` to a
type whose name starts with `mut`; otherwise it is not read at all. -/
theorem read_text_of_read {written : String} {base : Position} {t : TypeExpr}
    (h : read written base = .ok t) (place : Position) :
    ((∀ a ∈ t.parts, ¬ a.HidesMut) → ∃ t', read t.text place = .ok t' ∧ t'.plain = t.plain) ∧
    ((∃ a ∈ t.parts, a.HidesMut) → ∃ fault, read t.text place = .error fault) :=
  read_text (written_of_read h) place

/-- `fn(&'a T)` is read back with its result written out; `&(mut)` is printed as `&mut`, which is no
type. -/
theorem read_text_of_read_instances :
    (∃ t', read (func [ref (named ["T"] [] ⟨"u", 1, 8⟩) false (some "a") ⟨"u", 1, 4⟩] none
      ⟨"u", 1, 1⟩).text
        default = .ok t' ∧
      t'.plain =
        func [ref (named ["T"] [] default) false (some "a") default]
          (some (tuple [] default)) default) ∧
    ∃ fault, read (ref (named ["mut"] [] ⟨"u", 1, 3⟩) false none ⟨"u", 1, 1⟩).text default =
      .error fault := by
  constructor
  · exact (read_text_of_read Sample.read_func default).1
      (by simp [parts, listParts, resultParts, HidesMut])
  · exact (read_text_of_read Sample.read_hidden default).2
      ⟨_, mem_parts_self _, [], [], _, _, _, rfl⟩

end UnitCheck.TypeExpr
