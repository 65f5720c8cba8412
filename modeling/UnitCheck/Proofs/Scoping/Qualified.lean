import UnitCheck.Proofs.Scoping.Consistency

/-!
# Qualified names

The name of a type is made of the names around it and its own, with dots between them. Around it are
the modules up to the global scope, or up to a body; a body is known by a mark that holds the number
of its scope. `Table.Qualifies t path scope` says that `path` comes before the names of the types of
`scope`.

Names have neither dots nor marks in them, so a qualified name can be taken apart from its end, and
the names found there lead from the global scope or from the body to one scope only
(`Qualifies.scope_eq`). -/

namespace UnitCheck

open List Option

/-! ## Taking qualified names apart -/

namespace Text

/-- A text without dots and marks. -/
def IsPlain (s : List Char) : Prop := '.' ∉ s ∧ '#' ∉ s

theorem isPlain_of_isName {s : String} (h : isName s = true) : IsPlain s.toList :=
  ⟨fun hdot => absurd (continuesName_of_mem h _ hdot) (by decide),
    fun hmark => absurd (continuesName_of_mem h _ hmark) (by decide)⟩

theorem isPlain_repr (n : Nat) : IsPlain n.repr.toList := by
  have hdigit : ∀ c ∈ n.repr.toList, c.isDigit = true := by
    intro c hc
    rw [Nat.toList_repr] at hc
    exact Nat.isDigit_of_mem_toDigits (by decide) (by decide) hc
  constructor
  · intro hdot
    exact absurd (hdigit _ hdot) (by decide)
  · intro hmark
    exact absurd (hdigit _ hmark) (by decide)

/-- The last of the separators of a text tells what is before and after it. -/
theorem split_last {a b u v : List Char} {c d : Char} (h : a ++ c :: u = b ++ d :: v)
    (hc : c ∉ v) (hd : d ∉ u) : a = b ∧ c = d ∧ u = v := by
  -- if one front were longer, its separator would stand in the other's end
  rcases append_eq_append_iff.mp h with ⟨w, rfl, hw⟩ | ⟨w, rfl, hw⟩
  · cases w with
    | nil => simp_all
    | cons x w =>
      have hu : u = w ++ d :: v := (List.cons.inj hw).2
      exact absurd (by simp [hu]) hd
  · cases w with
    | nil => simp_all
    | cons x w =>
      have hv : v = w ++ c :: u := (List.cons.inj hw).2
      exact absurd (by simp [hv]) hc

/-- What stands before the last segment of a dotted name. -/
def lead (path : List String) : List Char := if path = [] then [] else (dotted path).toList ++ ['.']

theorem toList_dotted_snoc (path : List String) (s : String) :
    (dotted (path ++ [s])).toList = lead path ++ s.toList := by
  have hsnoc : path ≠ [] → dotted (path ++ [s]) = dotted path ++ "." ++ s := by
    intro hne
    induction path with
    | nil => exact absurd rfl hne
    | cons first rest ih =>
      cases rest with
      | nil => rfl
      | cons second rest =>
        have htail := ih (by simp)
        simp only [dotted, cons_append, String.intercalate_cons_cons] at htail ⊢
        rw [htail]
        simp only [String.append_assoc]
  unfold lead
  split_ifs with hp
  · rw [hp]
    rfl
  · rw [hsnoc hp]
    simp [String.toList_append]

/-- A dotted name that ends with a name has one last segment, and one path before it. -/
theorem dotted_snoc_inj {path path' : List String} {s s' : String} (hs : IsPlain s.toList)
    (hs' : IsPlain s'.toList) (h : dotted (path ++ [s]) = dotted (path' ++ [s'])) :
    s = s' ∧ (path = [] ↔ path' = []) ∧ dotted path = dotted path' := by
  have hlist := congrArg String.toList h
  rw [toList_dotted_snoc, toList_dotted_snoc] at hlist
  unfold lead at hlist
  split_ifs at hlist with hp hp' hp'
  · exact ⟨String.toList_injective hlist, by simp [hp, hp'], by rw [hp, hp']⟩
  · simp only [nil_append, append_assoc, singleton_append] at hlist
    exact absurd (by simp [hlist]) hs.1
  · simp only [nil_append, append_assoc, singleton_append] at hlist
    exact absurd (by simp [← hlist]) hs'.1
  · simp only [append_assoc, singleton_append] at hlist
    obtain ⟨hlead, -, htail⟩ := split_last hlist hs'.1 hs.1
    exact ⟨String.toList_injective htail, by simp [hp, hp'], String.toList_injective hlead⟩

/-- The mark of a body. -/
def bodyMark (outer : String) (scope : Nat) : String := s!"{outer}#{scope}"

theorem toList_bodyMark (outer : String) (scope : Nat) :
    (bodyMark outer scope).toList = outer.toList ++ '#' :: scope.repr.toList := by
  show ((outer ++ "#") ++ toString scope).toList = _
  rw [Nat.toString_eq_repr]
  simp [String.toList_append]

theorem dotted_bodyMark_inj {path path' : List String} {outer outer' : String} {scope scope' : Nat}
    (h : dotted (path ++ [bodyMark outer scope]) = dotted (path' ++ [bodyMark outer' scope'])) :
    scope = scope' := by
  have hlist := congrArg String.toList h
  simp only [toList_dotted_snoc, toList_bodyMark, ← append_assoc] at hlist
  obtain ⟨-, -, htail⟩ := split_last hlist (isPlain_repr scope').2 (isPlain_repr scope).2
  simpa using congrArg (fun digits => Nat.ofDigitChars 10 digits 0) htail

/-- A path that ends with the mark of a body does not end with a name. -/
theorem dotted_bodyMark_ne {path path' : List String} {outer s : String} {scope : Nat}
    (hs : IsPlain s.toList) : dotted (path ++ [bodyMark outer scope]) ≠ dotted (path' ++ [s]) := by
  intro h
  have hlist := congrArg String.toList h
  rw [toList_dotted_snoc, toList_dotted_snoc, toList_bodyMark, ← append_assoc] at hlist
  -- the last separator is a mark on one side and a dot on the other
  generalize lead path ++ outer.toList = front at hlist
  unfold lead at hlist
  split_ifs at hlist
  · rw [nil_append] at hlist
    exact hs.2 (by simp [← hlist])
  · rw [append_assoc, singleton_append] at hlist
    obtain ⟨-, hmark, -⟩ := split_last hlist hs.2 (isPlain_repr scope).1
    cases hmark

end Text

/-! ## From paths to scopes -/

namespace Table

open Text

variable {t t' : Table} {name : String}

/-- `path` comes before the names of the types of `scope`. -/
inductive Qualifies (t : Table) : List String → Nat → Prop where
  | global : Qualifies t [] 0
  | body (path : List String) (outer : String) (scope : Nat) :
      Qualifies t (path ++ [bodyMark outer scope]) scope
  | module {path : List String} {i m : Nat} {y : Symbol} (outer : Qualifies t path y.scope)
      (hy : t.symbols[i]? = some y) (hname : Text.isName y.name = true) (hm : y.members = some m) :
      Qualifies t (path ++ [y.name]) m

/-- Symbols keep their names, their scopes and their members. -/
def KeepsNames (t t' : Table) : Prop := ∀ (i : Nat) (y : Symbol), t.symbols[i]? = some y →
  ∃ y', t'.symbols[i]? = some y' ∧ y'.name = y.name ∧ y'.scope = y.scope ∧
    ∀ m, y.members = some m → y'.members = some m

/-- What was around a scope stays around it. -/
theorem Qualifies.mono (hkept : t.KeepsNames t') {path : List String} {scope : Nat}
    (h : t.Qualifies path scope) :
    t'.Qualifies path scope := by
  induction h with
  | global => exact .global
  | body path outer scope => exact .body path outer scope
  | module outer hy hname hm ih =>
    obtain ⟨y', hy', hname', hscope', hmembers'⟩ := hkept _ _ hy
    rw [← hname'] at hname ⊢
    rw [← hscope'] at ih
    exact .module ih hy' hname (hmembers' _ hm)

/-- Two symbols of one scope do not have the same name. -/
theorem Consistent.symbol_unique (ht : t.Consistent) {i j : Nat} {y z : Symbol}
    (hy : t.symbols[i]? = some y) (hz : t.symbols[j]? = some z) (hscope : y.scope = z.scope)
    (hname : y.name = z.name) : i = j := by
  have hi := ht.symbol_named hy
  rw [hscope, hname, ht.symbol_named hz] at hi
  exact (some.inj hi).symm

/-- Qualified names tell scopes apart: the last name of a path can be read off the text. -/
theorem Qualifies.scope_eq (ht : t.Consistent) {path path' : List String} {a b : Nat}
    (h : t.Qualifies path a) (h' : t.Qualifies path' b) (hnil : path = [] ↔ path' = [])
    (hdotted : dotted path = dotted path') : a = b := by
  -- both paths are taken apart from their ends
  induction h generalizing path' b with
  | global =>
    cases h' with
    | global => rfl
    | body | module => simp at hnil
  | body path outer scope =>
    cases h' with
    | global => simp at hnil
    | body path' outer' scope' => exact dotted_bodyMark_inj hdotted
    | module outer' hy' hname' hm' =>
      exact absurd hdotted (dotted_bodyMark_ne (isPlain_of_isName hname'))
  | module outer hy hname hm ih =>
    cases h' with
    | global => simp at hnil
    | body path' outer' scope' =>
      exact absurd hdotted.symm (dotted_bodyMark_ne (isPlain_of_isName hname))
    | module outer' hy' hname' hm' =>
      obtain ⟨hsame, hnil', hpath⟩ :=
        dotted_snoc_inj (isPlain_of_isName hname) (isPlain_of_isName hname') hdotted
      obtain rfl := ht.symbol_unique hy hy' (ih outer' hnil' hpath) hsame
      obtain rfl := mem_unique hy hy'
      exact mem_unique hm hm'

/-- A symbol with its name qualified. -/
structure Names (t : Table) (name : String) (i : Nat) (y : Symbol) : Prop where
  symbol : t.symbols[i]? = some y
  isName : Text.isName y.name = true
  qualified : ∃ path, t.Qualifies path y.scope ∧ name = dotted (path ++ [y.name])

theorem Names.mono (hkept : t.KeepsNames t') {i : Nat} {y : Symbol} (h : t.Names name i y) :
    ∃ y', t'.Names name i y' := by
  obtain ⟨hy, hname, path, hpath, heq⟩ := h
  obtain ⟨y', hy', hname', hscope', -⟩ := hkept i y hy
  rw [← hname'] at hname heq
  rw [← hscope'] at hpath
  exact ⟨y', hy', hname, path, hpath.mono hkept, heq⟩

/-- A qualified name names one symbol only. -/
theorem Names.unique (ht : t.Consistent) {i j : Nat} {y z : Symbol} (h : t.Names name i y)
    (h' : t.Names name j z) :
    i = j := by
  obtain ⟨path, hpath, rfl⟩ := h.qualified
  obtain ⟨path', hpath', heq⟩ := h'.qualified
  obtain ⟨hname, hnil, hdotted⟩ :=
    dotted_snoc_inj (isPlain_of_isName h.isName) (isPlain_of_isName h'.isName) heq
  exact ht.symbol_unique h.symbol h'.symbol (hpath.scope_eq ht hpath' hnil hdotted) hname

end Table

end UnitCheck
