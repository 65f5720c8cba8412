import UnitCheck.Tree.TypeExpr.Reader

/-!
# The grammar of type annotations

`TypeExpr.Derives base ls t` — the lexemes `ls` are a type annotation, and `t` is the tree that it
stands for. The rules are those of the grammar, one constructor each, over whole lists of lexemes
and with no regard to how they are read.

Reading is a walk from left to right that leaves the rest of the lexemes to its caller. The two
sides meet in `sound` (what has been taken off the front derives the tree) and `complete` (what
derives a tree is taken off the front, whatever follows, unless the type could go on there:
`Stops`). Every call takes fuel and every lexeme pays for three calls, so the fuel never runs out on
lexemes that derive a type. -/

namespace UnitCheck.TypeExpr

open List

variable {ls rest : List Lexeme} {t : TypeExpr} {l : Option String} {n : Option Int}
  {names : List String}
  {symbol : Char}

/-! ## The grammar -/

/-- Where the type that starts at a column of the annotation is in the unit. -/
def placeAt (base : Position) (column : Nat) : Position :=
  { base with column := base.column + column - 1 }

/-- `(('.' | ':' ':') name)*` -/
inductive Segments : List Lexeme → List String → Prop where
  | nil : Segments [] []
  | dot {n : String} {ls : List Lexeme} {names : List String} (c d : Nat)
    (more : Segments ls names) :
      Segments (⟨.symbol '.', c⟩ :: ⟨.name n, d⟩ :: ls) (n :: names)
  | colons {n : String} {ls : List Lexeme} {names : List String} (c c' d : Nat)
    (more : Segments ls names) :
      Segments (⟨.symbol ':', c⟩ :: ⟨.symbol ':', c'⟩ :: ⟨.name n, d⟩ :: ls) (n :: names)

/-- `[''' name]` -/
inductive Lifetime : List Lexeme → Option String → Prop where
  | absent : Lifetime [] none
  | given (n : String) (c d : Nat) : Lifetime [⟨.symbol '\'', c⟩, ⟨.name n, d⟩] (some n)

/-- `['mut']` -/
inductive Modifier : List Lexeme → Bool → Prop where
  | absent : Modifier [] false
  | given (c : Nat) : Modifier [⟨.name "mut", c⟩] true

/-- `[';' length]` -/
inductive Length : List Lexeme → Option Int → Prop where
  | absent : Length [] none
  | given {text : String} {n : Int} (c d : Nat) (reads : Number.readDecimal? text.toList = some n) :
      Length [⟨.symbol ';', c⟩, ⟨.integer text, d⟩] (some n)

/-- The lexemes start with the name `mut`. -/
def StartsMut (ls : List Lexeme) : Prop := ∃ c rest, ls = ⟨.name "mut", c⟩ :: rest

/-- What a parenthesis stands for: around one type it is that type. -/
def parenthesis (pos : Position) : List TypeExpr → TypeExpr
  | [t] => t
  | ts => .tuple ts pos

mutual

inductive Derives (base : Position) : List Lexeme → TypeExpr → Prop where
  /-- `'&' [''' name] ['mut'] type`; a `mut` that could be the modifier is the modifier. -/
  | ref {life mods ls : List Lexeme} {lifetime : Option String} {mutable : Bool} {inner : TypeExpr}
      (c : Nat) (hlife : Lifetime life lifetime) (hmods : Modifier mods mutable)
      (hinner : Derives base ls inner) (first : mutable = false → ¬ StartsMut ls) :
      Derives base (⟨.symbol '&', c⟩ :: (life ++ (mods ++ ls)))
      (.ref inner mutable lifetime (placeAt base c))
  /-- `'[' type [';' length] ']'` -/
  | array {ls len : List Lexeme} {elem : TypeExpr} {length : Option Int} (c d : Nat)
      (helem : Derives base ls elem) (hlen : Length len length) :
      Derives base (⟨.symbol '[', c⟩ :: (ls ++ (len ++ [⟨.symbol ']', d⟩])))
        (.array elem length (placeAt base c))
  /-- `'(' list ')'` -/
  | paren {ls : List Lexeme} {elems : List TypeExpr} (c d : Nat)
    (helems : DerivesList base ls elems) :
      Derives base (⟨.symbol '(', c⟩ :: (ls ++ [⟨.symbol ')', d⟩]))
      (parenthesis (placeAt base c) elems)
  /-- `'fn' '(' list ')' ['-' '>' type]` -/
  | func {ls res : List Lexeme} {params : List TypeExpr} {result : Option TypeExpr} (c d e : Nat)
      (hparams : DerivesList base ls params) (hresult : DerivesResult base res result) :
      Derives base (⟨.name "fn", c⟩ :: ⟨.symbol '(', d⟩ :: (ls ++ ⟨.symbol ')', e⟩ :: res))
        (.func params result (placeAt base c))
  /-- `name (('.' | ':' ':') name)* ['<' list '>']`; a type that starts with `fn` is a function. -/
  | named {n : String} {path ls : List Lexeme} {names : List String}
    {args : List TypeExpr} (c : Nat)
      (first : n ≠ "fn") (hpath : Segments path names) (hargs : DerivesArgs base ls args) :
      Derives base (⟨.name n, c⟩ :: (path ++ ls)) (.named (n :: names) args (placeAt base c))

/-- `['-' '>' type]` -/
inductive DerivesResult (base : Position) : List Lexeme → Option TypeExpr → Prop where
  | absent : DerivesResult base [] none
  | given {ls : List Lexeme} {t : TypeExpr} (c d : Nat) (ht : Derives base ls t) :
      DerivesResult base (⟨.symbol '-', c⟩ :: ⟨.symbol '>', d⟩ :: ls) (some t)

/-- `['<' list '>']` -/
inductive DerivesArgs (base : Position) : List Lexeme → List TypeExpr → Prop where
  | absent : DerivesArgs base [] []
  | given {ls : List Lexeme} {ts : List TypeExpr} (c d : Nat) (hts : DerivesList base ls ts) :
      DerivesArgs base (⟨.symbol '<', c⟩ :: (ls ++ [⟨.symbol '>', d⟩])) ts

/-- `empty | type (',' type)*` -/
inductive DerivesList (base : Position) : List Lexeme → List TypeExpr → Prop where
  | empty : DerivesList base [] []
  | some {ls : List Lexeme} {ts : List TypeExpr} (hts : DerivesItems base ls ts) :
    DerivesList base ls ts

/-- `type (',' type)*` -/
inductive DerivesItems (base : Position) : List Lexeme → List TypeExpr → Prop where
  | one {ls : List Lexeme} {t : TypeExpr} (ht : Derives base ls t) : DerivesItems base ls [t]
  | more {ls ms : List Lexeme} {t : TypeExpr} {ts : List TypeExpr} (c : Nat)
    (ht : Derives base ls t)
      (hts : DerivesItems base ms ts) :
      DerivesItems base (ls ++ ⟨.symbol ',', c⟩ :: ms) (t :: ts)

end

/-! ## What is read derives -/

/-- A computation that goes on after another one succeeds when both do. -/
theorem bind_eq_ok {ε α β : Type} {x : Except ε α} {f : α → Except ε β} {b : β} :
    (x >>= f) = .ok b ↔ ∃ a, x = .ok a ∧ f a = .ok b := by
  cases x with
  | error e => simp [bind, Except.bind]
  | ok a => simp [bind, Except.bind]

theorem ok_bind {ε α β : Type} (a : α) (f : α → Except ε β) : (Except.ok a >>= f) = f a := rfl

theorem failAt_ne_ok {α : Type} {fault : Option LexemeKind → TypeExprFault} {a : α} :
    failAt ls fault ≠ .ok a := by
  unfold failAt
  split <;> simp

theorem expect_sound (h : expect symbol ls = .ok rest) : ∃ c, ls = ⟨.symbol symbol, c⟩ :: rest := by
  unfold expect at h
  split at h
  · split at h
    next c hc =>
      cases h
      exact ⟨_, by rw [hc]⟩
    · exact absurd h failAt_ne_ok
  · exact absurd h failAt_ne_ok

theorem lifetime_sound (h : lifetime ls = .ok (l, rest)) : ∃ pre, ls = pre ++ rest ∧
      Lifetime pre l := by
  unfold lifetime at h
  split at h
  next c rest' =>
    split at h
    next text rest'' hname =>
      cases h
      unfold name at hname
      split at hname
      · cases hname
        exact ⟨_, rfl, .given text c _⟩
      · exact absurd hname failAt_ne_ok
    · cases h
  · cases h
    exact ⟨[], rfl, .absent⟩

theorem modifier_sound (ls : List Lexeme) :
    ∃ pre, ls = pre ++ (modifier ls).2 ∧ Modifier pre (modifier ls).1 ∧
      ((modifier ls).1 = false → ¬ StartsMut (modifier ls).2) := by
  unfold modifier
  split
  · next c rest => exact ⟨_, rfl, .given c, by simp⟩
  next hno =>
    refine ⟨[], rfl, .absent, fun _ hmut => ?_⟩
    obtain ⟨c, rest, heq⟩ := hmut
    exact hno c rest heq

theorem arrayLength_sound (h : arrayLength ls = .ok (n, rest)) : ∃ pre, ls = pre ++ rest ∧
      Length pre n := by
  unfold arrayLength at h
  split at h
  · split at h
    · split at h
      next hn =>
        cases h
        exact ⟨_, rfl, .given _ _ hn⟩
      · cases h
    · exact absurd h failAt_ne_ok
  · cases h
    exact ⟨[], rfl, .absent⟩

/-- What is read as the rest of a path consists of segments. -/
theorem pathTail_sound (h : pathTail ls = .ok (names, rest)) :
    ∃ pre, ls = pre ++ rest ∧ Segments pre names := by
  fun_induction pathTail ls generalizing names rest with
  | case1 c text d ls ih =>
    obtain ⟨⟨more, rest'⟩, hmore, heq⟩ := bind_eq_ok.mp h
    cases heq
    obtain ⟨pre, rfl, hpre⟩ := ih hmore
    exact ⟨_, rfl, .dot c d hpre⟩
  | case2 c c' text d ls ih =>
    obtain ⟨⟨more, rest'⟩, hmore, heq⟩ := bind_eq_ok.mp h
    cases heq
    obtain ⟨pre, rfl, hpre⟩ := ih hmore
    exact ⟨_, rfl, .colons c c' d hpre⟩
  | case3 => exact absurd h failAt_ne_ok
  | case4 => exact absurd h failAt_ne_ok
  | case5 => exact absurd h failAt_ne_ok
  | case6 =>
    cases h
    exact ⟨[], rfl, .nil⟩

/-- With this much fuel, what is taken off the front of the lexemes derives what is returned. -/
structure Sound (base : Position) (fuel : Nat) : Prop where
  type : ∀ {ls rest : List Lexeme} {t : TypeExpr}, readType base fuel ls = .ok (t, rest) →
    ∃ pre, ls = pre ++ rest ∧ Derives base pre t
  list : ∀ {close : Char} {ls rest : List Lexeme} {ts : List TypeExpr},
    readList base close fuel ls = .ok (ts, rest) →
      ∃ pre c, ls = pre ++ ⟨.symbol close, c⟩ :: rest ∧ DerivesList base pre ts
  items : ∀ {close : Char} {ls rest : List Lexeme} {ts : List TypeExpr},
    readItems base close fuel ls = .ok (ts, rest) →
      ∃ pre c, ls = pre ++ ⟨.symbol close, c⟩ :: rest ∧ DerivesItems base pre ts

section

variable {base : Position} {fuel : Nat} {ts : List TypeExpr} {close : Char}

/-- One step more: what is read as a type is derived, by the lexeme that it starts with. -/
theorem Sound.type_succ (h : Sound base fuel)
    (hread : readType base (fuel + 1) ls = .ok (t, rest)) :
    ∃ pre, ls = pre ++ rest ∧ Derives base pre t := by
  cases ls with
  | nil => exact absurd hread failAt_ne_ok
  | cons l ls =>
    obtain ⟨kind, c⟩ := l
    rw [readType] at hread
    dsimp only at hread
    split at hread
    · -- a reference
      obtain ⟨⟨lifetime, ls₁⟩, hlifetime, hrest⟩ := bind_eq_ok.mp hread
      obtain ⟨⟨inner, ls₂⟩, hinner, hresult⟩ := bind_eq_ok.mp hrest
      cases hresult
      obtain ⟨life, rfl, hlife⟩ := lifetime_sound hlifetime
      obtain ⟨mods, hmods_eq, hmods, hfirst⟩ := modifier_sound ls₁
      obtain ⟨pre, hpre_eq, hpre⟩ := h.type hinner
      have hstart : (modifier ls₁).1 = false → ¬ StartsMut pre := by
        rintro hfalse ⟨d, tail, rfl⟩
        exact hfirst hfalse ⟨d, tail ++ ls₂, hpre_eq⟩
      have hsplit : ls₁ = mods ++ (pre ++ ls₂) := by rw [← hpre_eq, ← hmods_eq]
      exact ⟨_, by simp [hsplit], .ref c hlife hmods hpre hstart⟩
    · -- an array
      obtain ⟨⟨elem, ls₁⟩, helem, hrest₁⟩ := bind_eq_ok.mp hread
      obtain ⟨⟨length, ls₂⟩, hlength, hrest₂⟩ := bind_eq_ok.mp hrest₁
      obtain ⟨ls₃, hclose, hresult⟩ := bind_eq_ok.mp hrest₂
      cases hresult
      obtain ⟨pre, rfl, hpre⟩ := h.type helem
      obtain ⟨len, rfl, hlen⟩ := arrayLength_sound hlength
      obtain ⟨d, rfl⟩ := expect_sound hclose
      exact ⟨_, by simp, .array c d hpre hlen⟩
    · -- a parenthesis
      obtain ⟨⟨elems, ls₁⟩, helems, hresult⟩ := bind_eq_ok.mp hread
      obtain ⟨pre, d, rfl, hpre⟩ := h.list helems
      have hparen : parenthesis (placeAt base c) elems = t ∧ ls₁ = rest := by
        dsimp only at hresult
        split at hresult
        · cases hresult
          exact ⟨rfl, rfl⟩
        next hmany =>
          cases hresult
          refine ⟨?_, rfl⟩
          rw [parenthesis]
          · rfl
          · exact hmany
      obtain ⟨rfl, rfl⟩ := hparen
      exact ⟨_, by simp, .paren c d hpre⟩
    · -- a function
      obtain ⟨ls₁, hopen, hrest₁⟩ := bind_eq_ok.mp hread
      obtain ⟨⟨params, ls₂⟩, hparams, hrest₂⟩ := bind_eq_ok.mp hrest₁
      obtain ⟨d, rfl⟩ := expect_sound hopen
      obtain ⟨pre, e, rfl, hpre⟩ := h.list hparams
      dsimp only at hrest₂
      split at hrest₂
      next _ a ls₃ =>
        obtain ⟨ls₄, harrow, hrest₃⟩ := bind_eq_ok.mp hrest₂
        obtain ⟨⟨result, ls₅⟩, hresult, hdone⟩ := bind_eq_ok.mp hrest₃
        cases hdone
        obtain ⟨b, rfl⟩ := expect_sound harrow
        obtain ⟨res, rfl, hres⟩ := h.type hresult
        exact ⟨_, by simp, .func c d e hpre (.given a b hres)⟩
      · cases hrest₂
        exact ⟨_, by simp, .func c d e hpre .absent⟩
    · -- a name
      next n hn =>
      have hfirst : n ≠ "fn" := hn
      obtain ⟨⟨names, ls₁⟩, htail, hrest₁⟩ := bind_eq_ok.mp hread
      obtain ⟨path, rfl, hpath⟩ := pathTail_sound htail
      dsimp only at hrest₁
      split at hrest₁
      next _ a ls₂ =>
        obtain ⟨⟨args, ls₃⟩, hargs, hdone⟩ := bind_eq_ok.mp hrest₁
        cases hdone
        obtain ⟨pre, b, rfl, hpre⟩ := h.list hargs
        exact ⟨_, by simp, .named c hfirst hpath (.given a b hpre)⟩
      · cases hrest₁
        exact ⟨_, by simp, .named c hfirst hpath .absent⟩
    · exact absurd hread failAt_ne_ok

theorem Sound.list_succ (h : Sound base fuel)
    (hread : readList base close (fuel + 1) ls = .ok (ts, rest)) :
    ∃ pre c, ls = pre ++ ⟨.symbol close, c⟩ :: rest ∧ DerivesList base pre ts := by
  have hsome : readItems base close fuel ls = .ok (ts, rest) →
      ∃ pre c, ls = pre ++ ⟨.symbol close, c⟩ :: rest ∧ DerivesList base pre ts := by
    intro hitems
    obtain ⟨pre, c, heq, hpre⟩ := h.items hitems
    exact ⟨pre, c, heq, .some hpre⟩
  unfold readList at hread
  split at hread
  next symbol c ls' =>
    split at hread
    next hclose =>
      cases hread
      exact ⟨[], c, by rw [hclose]; rfl, .empty⟩
    · exact hsome hread
  · exact hsome hread

theorem Sound.items_succ (h : Sound base fuel)
    (hread : readItems base close (fuel + 1) ls = .ok (ts, rest)) :
    ∃ pre c, ls = pre ++ ⟨.symbol close, c⟩ :: rest ∧ DerivesItems base pre ts := by
  obtain ⟨⟨t, ls₁⟩, ht, hrest₁⟩ := bind_eq_ok.mp hread
  obtain ⟨pre, rfl, hpre⟩ := h.type ht
  dsimp only at hrest₁
  split at hrest₁
  next _ a ls₂ =>
    obtain ⟨⟨more, ls₃⟩, hmore, hdone⟩ := bind_eq_ok.mp hrest₁
    cases hdone
    obtain ⟨pre', c, rfl, hpre'⟩ := h.items hmore
    exact ⟨_, c, by simp, .more a hpre hpre'⟩
  · obtain ⟨ls₂, hclose, hdone⟩ := bind_eq_ok.mp hrest₁
    cases hdone
    obtain ⟨c, rfl⟩ := expect_sound hclose
    exact ⟨pre, c, rfl, .one hpre⟩

theorem sound (base : Position) (fuel : Nat) : Sound base fuel := by
  induction fuel with
  | zero => exact ⟨fun h => absurd h failAt_ne_ok, fun h => absurd h failAt_ne_ok,
      fun h => absurd h failAt_ne_ok⟩
  | succ fuel ih => exact ⟨ih.type_succ, ih.list_succ, ih.items_succ⟩

end

/-! ## What derives is read

A type may go on behind its last lexeme: a path by another segment or by arguments, a function by
its result. It is read to its end if no such lexeme follows.
-/

/-- No type goes on with these lexemes. -/
def Stops (rest : List Lexeme) : Prop :=
  ∀ symbol ∈ ['.', ':', '<', '-'], ∀ c tail, rest ≠ ⟨.symbol symbol, c⟩ :: tail

theorem stops_nil : Stops [] := by simp [Stops]

theorem stops_cons (h : symbol ∉ ['.', ':', '<', '-']) (c : Nat) (tail : List Lexeme) :
    Stops (⟨.symbol symbol, c⟩ :: tail) := by
  intro symbol' hmem c' tail' heq
  have hkind : LexemeKind.symbol symbol = .symbol symbol' :=
    congrArg Lexeme.kind (List.cons.inj heq).1
  obtain rfl := LexemeKind.symbol.inj hkind
  exact h hmem

theorem expect_complete (symbol : Char) (c : Nat) (rest : List Lexeme) :
    expect symbol (⟨.symbol symbol, c⟩ :: rest) = .ok rest := by
  simp [expect]

/-- A type does not start with a symbol that stands behind one. -/
theorem Derives.first {base : Position} (h : Derives base ls t) :
    ∃ l tail, ls = l :: tail ∧ ∀ symbol, l.kind = .symbol symbol → symbol ∈ ['&', '[', '('] := by
  cases h with
  | ref c => exact ⟨_, _, rfl, by simp⟩
  | array c => exact ⟨_, _, rfl, by simp⟩
  | paren c => exact ⟨_, _, rfl, by simp⟩
  | func c => exact ⟨_, _, rfl, by simp⟩
  | named c => exact ⟨_, _, rfl, by simp⟩

theorem lifetime_complete {life : List Lexeme} (h : Lifetime life l)
    (hrest : ∀ c tail, rest ≠ ⟨.symbol '\'', c⟩ :: tail) :
    lifetime (life ++ rest) = .ok (l, rest) := by
  cases h with
  | given n c d => rfl
  | absent =>
    unfold lifetime
    split
    · next c tail heq => exact absurd heq (hrest c tail)
    · rfl

theorem modifier_complete {mods : List Lexeme} {m : Bool} (h : Modifier mods m)
    (hrest : m = false → ¬ StartsMut rest) : modifier (mods ++ rest) = (m, rest) := by
  cases h with
  | given c => rfl
  | absent =>
    unfold modifier
    split
    · next c tail heq => exact absurd ⟨c, tail, heq⟩ (hrest rfl)
    · rfl

theorem arrayLength_complete {len : List Lexeme} (h : Length len n)
    (hrest : ∀ c tail, rest ≠ ⟨.symbol ';', c⟩ :: tail) :
    arrayLength (len ++ rest) = .ok (n, rest) := by
  cases h with
  | given c d hn => simp [arrayLength, hn]
  | absent =>
    unfold arrayLength
    split
    · next c tail heq => exact absurd heq (hrest c _)
    · rfl

/-- Segments are read to their end if nothing follows that would go on with the path. -/
theorem pathTail_complete {path : List Lexeme} (h : Segments path names)
    (hdot : ∀ c tail, rest ≠ ⟨.symbol '.', c⟩ :: tail)
    (hcolon : ∀ c tail, rest ≠ ⟨.symbol ':', c⟩ :: tail) :
    pathTail (path ++ rest) = .ok (names, rest) := by
  induction h with
  | nil =>
    show pathTail rest = _
    unfold pathTail
    split
    · next heq => exact absurd rfl (hdot _ _)
    · exact absurd rfl (hcolon _ _)
    · exact absurd rfl (hdot _ _)
    · exact absurd rfl (hcolon _ _)
    · exact absurd rfl (hcolon _ _)
    · rfl
  | dot c d more ih => simp [pathTail, ih, bind, Except.bind, pure, Except.pure]
  | colons c c' d more ih => simp [pathTail, ih, bind, Except.bind, pure, Except.pure]

/-- With this much fuel, every list of lexemes that is short enough is read as what it derives. -/
structure Complete (base : Position) (fuel : Nat) : Prop where
  type : ∀ {ls rest : List Lexeme} {t : TypeExpr}, Derives base ls t → 3 * ls.length ≤ fuel →
    Stops rest → readType base fuel (ls ++ rest) = .ok (t, rest)
  list : ∀ {close : Char} {ls rest : List Lexeme} {ts : List TypeExpr} {c : Nat},
    DerivesList base ls ts → 3 * ls.length + 2 ≤ fuel → close ∈ [')', '>'] →
      readList base close fuel (ls ++ ⟨.symbol close, c⟩ :: rest) = .ok (ts, rest)
  items : ∀ {close : Char} {ls rest : List Lexeme} {ts : List TypeExpr} {c : Nat},
    DerivesItems base ls ts → 3 * ls.length + 1 ≤ fuel → close ∈ [')', '>'] →
      readItems base close fuel (ls ++ ⟨.symbol close, c⟩ :: rest) = .ok (ts, rest)

section

variable {base : Position} {fuel : Nat} {ts : List TypeExpr}

theorem DerivesItems.first (h : DerivesItems base ls ts) :
    ∃ l tail, ls = l :: tail ∧ ∀ symbol, l.kind = .symbol symbol → symbol ∈ ['&', '[', '('] := by
  cases h with
  | one ht => exact ht.first
  | more c ht hts =>
    obtain ⟨l, tail, rfl, hl⟩ := ht.first
    exact ⟨l, _, rfl, hl⟩

/-- One step more: what is derived is read, up to a lexeme that stops it. The steps are counted by
lexemes, three for each. -/
theorem Complete.type_succ (h : Complete base fuel) (ht : Derives base ls t)
    (hfuel : 3 * ls.length ≤ fuel + 1) (hrest : Stops rest) :
    readType base (fuel + 1) (ls ++ rest) = .ok (t, rest) := by
  cases ht with
  | @ref life mods ls lifetime mutable inner c hlife hmods hinner hfirst =>
    simp only [length_cons, length_append] at hfuel
    have hread := h.type hinner (by omega) hrest
    -- without `mut` the type inside does not start with that word either
    have hmut : mutable = false → ¬ StartsMut (ls ++ rest) := by
      rintro hfalse ⟨d, tail, heq⟩
      obtain ⟨l, tail', rfl, -⟩ := hinner.first
      obtain rfl := (List.cons.inj heq).1
      exact hfirst hfalse ⟨d, tail', rfl⟩
    have hquote : ∀ d tail, mods ++ (ls ++ rest) ≠ ⟨.symbol '\'', d⟩ :: tail := by
      intro d tail heq
      cases hmods with
      | given => cases heq
      | absent =>
        obtain ⟨l, tail', rfl, hl⟩ := hinner.first
        obtain rfl := (List.cons.inj heq).1
        simpa using hl _ rfl
    simp only [cons_append, append_assoc, readType, lifetime_complete hlife hquote,
      ok_bind, modifier_complete hmods hmut, hread]
    rfl
  | @array ls len elem length c d helem hlen =>
    simp only [length_cons, length_append, length_nil] at hfuel
    -- the element ends where the length or the bracket begins
    have hstops : Stops (len ++ ⟨.symbol ']', d⟩ :: rest) := by
      cases hlen with
      | absent => exact stops_cons (by decide) d rest
      | given e f hn => exact stops_cons (by decide) e _
    have hread := h.type helem (by omega) hstops
    have hclose : ∀ e tail, ⟨.symbol ']', d⟩ :: rest ≠ (⟨.symbol ';', e⟩ : Lexeme) ::
      tail := by simp
    simp only [cons_append, append_assoc, nil_append, readType, hread, ok_bind,
      arrayLength_complete hlen hclose, expect_complete]
    rfl
  | @paren ls elems c d helems =>
    simp only [length_cons, length_append, length_nil] at hfuel
    have hread : readList base ')' fuel (ls ++ ⟨.symbol ')', d⟩ :: rest) = .ok (elems, rest) :=
      h.list helems (by omega) (by simp)
    simp only [cons_append, append_assoc, nil_append, readType, hread, ok_bind]
    match elems with
    | [] | [_] | _ :: _ :: _ => rfl
  | @func ls res params result c d e hparams hresult =>
    simp only [length_cons, length_append] at hfuel
    have hread : readList base ')' fuel (ls ++ ⟨.symbol ')', e⟩ :: (res ++ rest)) =
        .ok (params, res ++ rest) := h.list hparams (by omega) (by simp)
    simp only [cons_append, append_assoc, readType, expect_complete, ok_bind, hread]
    cases hresult with
    | absent =>
      split
      · next f tail heq => exact absurd heq (hrest '-' (by simp) f tail)
      · rfl
    | @given ls' t f g ht =>
      simp only [length_cons] at hfuel
      have hread' := h.type ht (by omega) hrest
      simp only [cons_append, expect_complete, ok_bind, hread']
      rfl
  | @named n path ls names args c hfirst hpath hargs =>
    -- a path goes on at a dot or a colon only
    have hsymbols : ∀ symbol ∈ ['.', ':'], ∀ d tail, ls ++ rest ≠ ⟨.symbol symbol, d⟩ :: tail := by
      intro symbol hmem d tail heq
      cases hargs with
      | absent =>
        exact hrest symbol (mem_append_left ['<', '-'] hmem) d tail heq
      | given =>
        have hopen : '<' = symbol := by simpa using congrArg Lexeme.kind (List.cons.inj heq).1
        simp [← hopen] at hmem
    have hdot := hsymbols '.' (by simp)
    have hcolon := hsymbols ':' (by simp)
    simp only [cons_append, append_assoc, readType, pathTail_complete hpath hdot hcolon, ok_bind]
    cases hargs with
    | absent =>
      split
      · next d tail heq => exact absurd heq (hrest '<' (by simp) d tail)
      · rfl
    | @given ls' args d e hts =>
      simp only [length_cons, length_append, length_nil] at hfuel
      have hread : readList base '>' fuel (ls' ++ ⟨.symbol '>', e⟩ :: rest) = .ok (args, rest) :=
        h.list hts (by omega) (by simp)
      simp only [cons_append, append_assoc, nil_append, hread, ok_bind]
      rfl

/-- So is a list up to its closing symbol. -/
theorem Complete.list_succ (h : Complete base fuel) {close : Char}
    {c : Nat} (hts : DerivesList base ls ts) (hfuel : 3 * ls.length + 2 ≤ fuel + 1)
    (hclose : close ∈ [')', '>']) :
    readList base close (fuel + 1) (ls ++ ⟨.symbol close, c⟩ :: rest) = .ok (ts, rest) := by
  cases hts with
  | empty => simp [readList]
  | some hts =>
    have hread : readItems base close fuel (ls ++ ⟨.symbol close, c⟩ :: rest) = .ok (ts, rest) :=
      h.items hts (by omega) hclose
    obtain ⟨⟨kind, d⟩, tail, rfl, hfirst⟩ := hts.first
    -- the list is not taken for an empty one: no type starts with the closing character
    have hopen : ∀ symbol, kind = .symbol symbol → symbol ≠ close := by
      rintro symbol hkind rfl
      have hstart := hfirst symbol hkind
      simp only [mem_cons, not_mem_nil, or_false] at hclose
      rcases hclose with rfl | rfl <;> simp at hstart
    unfold readList
    split
    next symbol d' tail' heq =>
      have hkind : kind = .symbol symbol := congrArg Lexeme.kind (List.cons.inj heq).1
      rw [if_neg (hopen symbol hkind)]
      exact hread
    · exact hread

/-- The items of a list are read up to the comma or the symbol behind each. -/
theorem Complete.items_succ (h : Complete base fuel) {close : Char}
    {c : Nat} (hts : DerivesItems base ls ts) (hfuel : 3 * ls.length + 1 ≤ fuel + 1)
    (hclose : close ∈ [')', '>']) :
    readItems base close (fuel + 1) (ls ++ ⟨.symbol close, c⟩ :: rest) = .ok (ts, rest) := by
  cases hts with
  | one ht =>
    have hstops : close ∉ ['.', ':', '<', '-'] ∧ close ≠ ',' := by
      simp only [mem_cons, not_mem_nil, or_false] at hclose
      rcases hclose with rfl | rfl <;> decide
    have hread := h.type ht (by omega) (stops_cons hstops.1 c rest)
    simp only [readItems, hread, ok_bind]
    split
    next d tail heq =>
      have hcomma : LexemeKind.symbol close = .symbol ',' :=
        congrArg Lexeme.kind (List.cons.inj heq).1
      exact absurd (LexemeKind.symbol.inj hcomma) hstops.2
    · simp only [expect_complete, ok_bind]
      rfl
  | @more ls ms t ts d ht hts =>
    simp only [length_append, length_cons] at hfuel
    have hcomma : ',' ∉ ['.', ':', '<', '-'] := by decide
    have hread := h.type ht (by omega) (stops_cons hcomma d (ms ++ ⟨.symbol close, c⟩ :: rest))
    have hmore : readItems base close fuel (ms ++ ⟨.symbol close, c⟩ :: rest) = .ok (ts, rest) :=
      h.items hts (by omega) hclose
    simp only [append_assoc, cons_append, readItems, hread, ok_bind, hmore]
    rfl

theorem complete (base : Position) (fuel : Nat) : Complete base fuel := by
  induction fuel with
  | zero =>
    refine ⟨?_, by omega, by omega⟩
    intro ls rest t ht hfuel
    obtain ⟨l, tail, rfl, -⟩ := ht.first
    simp at hfuel
  | succ fuel ih => exact ⟨ih.type_succ, ih.list_succ, ih.items_succ⟩

end

/-! ## Broken texts -/

/-- No lexeme stands for a place where the text could not be split. -/
def Unbroken (ls : List Lexeme) : Prop := ∀ l ∈ ls, ∀ fault, l.kind ≠ .broken fault

@[simp] theorem unbroken_nil : Unbroken [] := by simp [Unbroken]

@[simp] theorem unbroken_cons {l : Lexeme} :
    Unbroken (l :: ls) ↔ (∀ fault, l.kind ≠ .broken fault) ∧ Unbroken ls := by
  simp [Unbroken]

@[simp] theorem unbroken_append {ms : List Lexeme} : Unbroken (ls ++ ms) ↔ Unbroken ls ∧
      Unbroken ms := by
  simp [Unbroken, or_imp, forall_and]

theorem Segments.unbroken (h : Segments ls names) : Unbroken ls := by
  induction h with
  | nil => simp
  | dot c d more ih => simpa using ih
  | colons c c' d more ih => simpa using ih

theorem Lifetime.unbroken (h : Lifetime ls l) : Unbroken ls := by
  cases h <;> simp

theorem Modifier.unbroken {m : Bool} (h : Modifier ls m) : Unbroken ls := by
  cases h <;> simp

theorem Length.unbroken (h : Length ls n) : Unbroken ls := by
  cases h <;> simp

mutual

theorem Derives.unbroken {base : Position} {ls : List Lexeme} {t : TypeExpr} :
    Derives base ls t → Unbroken ls
  | .ref _ hlife hmods hinner _ => by simp [hlife.unbroken, hmods.unbroken, hinner.unbroken]
  | .array _ _ helem hlen => by simp [helem.unbroken, hlen.unbroken]
  | .paren _ _ helems => by simp [helems.unbroken]
  | .func _ _ _ hparams hresult => by simp [hparams.unbroken, hresult.unbroken]
  | .named _ _ hpath hargs => by simp [hpath.unbroken, hargs.unbroken]

theorem DerivesResult.unbroken {base : Position} {ls : List Lexeme} {t : Option TypeExpr} :
    DerivesResult base ls t → Unbroken ls
  | .absent => by simp
  | .given _ _ ht => by simp [ht.unbroken]

theorem DerivesArgs.unbroken {base : Position} {ls : List Lexeme} {ts : List TypeExpr} :
    DerivesArgs base ls ts → Unbroken ls
  | .absent => by simp
  | .given _ _ hts => by simp [hts.unbroken]

theorem DerivesList.unbroken {base : Position} {ls : List Lexeme} {ts : List TypeExpr} :
    DerivesList base ls ts → Unbroken ls
  | .empty => by simp
  | .some hts => hts.unbroken

theorem DerivesItems.unbroken {base : Position} {ls : List Lexeme} {ts : List TypeExpr} :
    DerivesItems base ls ts → Unbroken ls
  | .one ht => ht.unbroken
  | .more _ ht hts => by simp [ht.unbroken, hts.unbroken]

end

/-! ## The annotations that are accepted -/

theorem ofLexemes_ok_iff {base : Position} : ofLexemes base ls = .ok t ↔ Derives base ls t := by
  constructor
  · intro h
    obtain ⟨⟨result, rest⟩, hread, hdone⟩ := bind_eq_ok.mp h
    obtain ⟨pre, rfl, hpre⟩ := (sound base _).type hread
    cases rest with
    | nil =>
      cases hdone
      simpa using hpre
    | cons l rest => exact absurd hdone failAt_ne_ok
  · intro h
    have hread := (complete base (3 * ls.length + 3)).type h (by omega) stops_nil
    rw [append_nil] at hread
    simp only [ofLexemes, hread, ok_bind]
    rfl

/-- An annotation is read as a type exactly when its text can be split into lexemes throughout and
all of them together derive that type. -/
theorem read_ok_iff_derives (text : String) (base : Position) (t : TypeExpr) :
    TypeExpr.read text base = .ok t ↔
      Unbroken (Lexeme.split text) ∧ Derives base (Lexeme.split text) t := by
  constructor
  · intro h
    have hderives := ofLexemes_ok_iff.mp h
    exact ⟨hderives.unbroken, hderives⟩
  · rintro ⟨-, hderives⟩
    exact ofLexemes_ok_iff.mpr hderives

end UnitCheck.TypeExpr
