import Mathlib.Data.List.TakeWhile
import UnitCheck.Tree.TypeExpr.Lexeme

/-!
# Splitting texts into lexemes

Two views of `Lexeme.splitFrom`. From the text to the lexemes: whatever the text is, a name among
its lexemes is a name, and an integer starts with a digit (`proper_of_mem_split`). From the lexemes
to the text: `Splits text kinds` says that a text is split into lexemes of these kinds wherever it
starts, and a text is put together from its end, one lexeme or blank at a time. A lexeme ends where
the character behind it cannot go on with it, and that character must not be a NUL.
-/

namespace UnitCheck

open List

variable {rest text : List Char} {c : Char} {kinds : List LexemeKind}

/-! ## Decimal numbers -/

namespace Number

variable {n : Nat}

theorem isDigit_range (h : c.isDigit = true) : 48 ≤ c.toNat ∧ c.toNat ≤ 57 :=
  Char.isDigit_iff_toNat.mp h

theorem digitValue?_of_isDigit (h : c.isDigit = true) : digitValue? c = some (c.toNat - 48) := by
  rw [digitValue?, if_pos (isDigit_range h)]

theorem le_ofDigitChars (acc : Nat) (digits : List Char) :
    acc ≤ Nat.ofDigitChars 10 digits acc := by
  induction digits generalizing acc with
  | nil => exact Nat.le_refl acc
  | cons c rest ih =>
    rw [Nat.ofDigitChars_cons]
    exact Nat.le_trans (by omega) (ih _)

/-- Digits are read as the number that they write, if that is within the limit. -/
theorem readDigits_eq_ofDigitChars {limit acc : Nat} {digits : List Char}
    (hdigits : ∀ c ∈ digits, c.isDigit = true) (hlimit : Nat.ofDigitChars 10 digits acc ≤ limit) :
    readDigits 10 limit false acc digits = .ok (Nat.ofDigitChars 10 digits acc) := by
  induction digits generalizing acc with
  | nil => rfl
  | cons c rest ih =>
    rw [forall_mem_cons] at hdigits
    obtain ⟨hc, hrest⟩ := hdigits
    have hrange := isDigit_range hc
    have hnext : acc * 10 + (c.toNat - 48) = 10 * acc + (c.toNat - '0'.toNat) := by
      rw [Nat.mul_comm]
      rfl
    rw [Nat.ofDigitChars_cons] at hlimit ⊢
    have hacc := Nat.le_trans (le_ofDigitChars _ rest) hlimit
    rw [readDigits, if_neg (by simp), digitValue?_of_isDigit hc]
    dsimp only
    rw [if_neg (by omega), hnext, if_neg (by omega)]
    exact ih hrest hlimit

theorem isDigit_of_mem_repr (h : c ∈ n.repr.toList) : c.isDigit = true := by
  rw [Nat.toList_repr] at h
  exact Nat.isDigit_of_mem_toDigits (by decide) (by decide) h

/-- A text that starts with a digit has no sign. -/
theorem splitSign_of_isDigit (h : c.isDigit = true) :
    splitSign (c :: rest) = (false, c :: rest) := by
  have hminus : c ≠ '-' := by
    rintro rfl
    exact absurd h (by decide)
  have hplus : c ≠ '+' := by
    rintro rfl
    exact absurd h (by decide)
  unfold splitSign
  split
  · next heq => exact absurd (List.cons.inj heq).1 hminus
  · next heq => exact absurd (List.cons.inj heq).1 hplus
  · rfl

/-- A number below `2 ^ 63` is read back from its decimal digits. -/
theorem readDecimal?_repr (h : n < Nat.pow 2 63) : readDecimal? n.repr.toList = some (n : Int) := by
  have hvalue : Nat.ofDigitChars 10 n.repr.toList 0 = n := by
    rw [Nat.toList_repr, Nat.ofDigitChars_ten_toDigits]
  have hread : readDigits 10 maxUnsigned false 0 n.repr.toList = .ok n := by
    have hlimit : Nat.ofDigitChars 10 n.repr.toList 0 ≤ maxUnsigned := by
      rw [hvalue]
      exact Nat.le_trans (Nat.le_of_lt h) (by decide)
    rw [readDigits_eq_ofDigitChars (fun c hc => isDigit_of_mem_repr hc) hlimit, hvalue]
  have hne : n.repr.toList ≠ [] := by
    rw [Nat.toList_repr]
    exact Nat.toDigits_ne_nil
  obtain ⟨c, rest, hcons⟩ := exists_cons_of_ne_nil hne
  have hc : c.isDigit = true := isDigit_of_mem_repr (by rw [hcons]; simp)
  rw [hcons] at hread ⊢
  simp [readDecimal?, readSignedIn, splitSign_of_isDigit hc, hread, applySign, h, Except.toOption]

/-- A number that is written without a sign is read as one from `0` up to `2 ^ 63`. -/
theorem readDecimal?_range {n : Int} (hc : c.isDigit = true)
    (h : readDecimal? (c :: rest) = some n) :
    ∃ m : Nat, n = m ∧ m < Nat.pow 2 63 := by
  rw [readDecimal?, readSignedIn, splitSign_of_isDigit hc] at h
  dsimp only at h
  rw [if_neg (by simp)] at h
  split at h
  next m _ =>
    rw [applySign, if_neg (by simp)] at h
    split at h
    next hm =>
      refine ⟨m, ?_, hm⟩
      simpa [Except.toOption, eq_comm] using h
    · simp [Except.toOption] at h
  · simp [Except.toOption] at h

theorem head_toDigits_ne_zero (h : 0 < n) : (Nat.toDigits 10 n).head? ≠ some '0' := by
  induction n using Nat.strong_induction_on with
  | _ n ih =>
    rw [Nat.toDigits_eq_if (by decide)]
    split
    next hlt =>
      intro hhead
      have hzero : n.digitChar = '0' := by simpa using hhead
      have hcode := Nat.toNat_digitChar_of_lt_ten hlt
      rw [hzero] at hcode
      have : '0'.toNat = 48 := rfl
      omega
    · have hmore := ih (n / 10) (by omega) (by omega)
      obtain ⟨c, rest, hcons⟩ := exists_cons_of_ne_nil (Nat.toDigits_ne_nil (b := 10) (n := n / 10))
      rw [hcons] at hmore ⊢
      exact hmore

end Number

namespace Text

/-- The byte order mark, which may stand at the start of a text, does not start a name. -/
theorem startsName_byteOrderMark : startsName '\ufeff' = false := by
  have hcode : '\ufeff'.toNat = 0xfeff := rfl
  have hrun : inRuns letterRuns 0xfeff = false := by decide +kernel
  simp [startsName, isLetter, hcode, hrun]

end Text

namespace Lexeme

variable {chars : List Char} {l : Lexeme}

/-! ## What the lexemes of a text are -/

/-- A name is a name, and an integer starts with a digit. -/
def Proper (l : Lexeme) : Prop :=
  match l.kind with
  | .name text => Text.isName text = true
  | .integer text => ∃ c rest, text.toList = c :: rest ∧ c.isDigit = true
  | _ => True

/-- Letters are digits only in the form whose announcement is not empty. -/
theorem announcedRadix_ne_hexadecimal (h : (announcedRadix text).2 = 0) :
    (announcedRadix text).1 ≠ .hexadecimal := by
  intro hhex
  revert h hhex
  unfold announcedRadix
  split
  · split_ifs <;> simp
  · simp
  · simp

/-- Where nothing is announced, an integer is made of digits and low lines. -/
theorem integerChars_of_unannounced (h : (announcedRadix text).2 = 0) :
    integerChars text = text.takeWhile (fun c => c == '_' || c.isDigit) := by
  simp [integerChars, h, announcedRadix_ne_hexadecimal h]

theorem head_integerChars (rest : List Char) (hc : c.isDigit = true) :
    ∃ more, integerChars (c :: rest) = c :: more := by
  by_cases h : (announcedRadix (c :: rest)).2 = 0
  · rw [integerChars_of_unannounced h, takeWhile_cons_of_pos (by simp [hc])]
    exact ⟨_, rfl⟩
  · obtain ⟨k, hk⟩ := Nat.exists_eq_succ_of_ne_zero h
    simp [integerChars, hk]

theorem isName_name (rest : List Char) (hc : Text.startsName c = true) :
    Text.isName (String.ofList (c :: rest.takeWhile Text.continuesName)) = true := by
  simp [Text.isName, hc]

/-- The lexeme at the start of a text is proper. -/
theorem proper_first (c : Char) (rest : List Char) (column : Nat) :
    Proper ⟨(first c rest).1, column⟩ := by
  unfold first
  split_ifs with hname hdigit
  · exact isName_name rest hname
  · dsimp only
    split
    · trivial
    · obtain ⟨more, hmore⟩ := head_integerChars rest hdigit
      exact ⟨c, more, by rw [hmore, String.toList_ofList], hdigit⟩
  · trivial

/-- What a text is split into is written as lexemes are. -/
theorem proper_of_mem_splitFrom {column skip : Nat}
    (h : l ∈ splitFrom text column skip) : l.Proper := by
  fun_induction splitFrom text column skip with
  | case1 => simp at h
  | case2 c rest column next skip ih => exact ih h
  | case4 c rest column next hnul hblank ih => exact ih h
  | case7 c rest column next hnul hblank kind length hfirst hbehind hkind ih =>
    rcases mem_cons.mp h with rfl | hmem
    · have hproper := proper_first c rest column
      rw [hfirst] at hproper
      exact hproper
    · exact ih hmem
  -- a place where the text cannot be split
  | case3 => rw [mem_singleton.mp h]; trivial
  | case5 => rw [mem_singleton.mp h]; trivial
  | case6 => rw [mem_singleton.mp h]; trivial

theorem proper_of_mem_split {text : String} (h : l ∈ split text) : l.Proper := by
  unfold split at h
  split at h
  · exact proper_of_mem_splitFrom h
  · exact proper_of_mem_splitFrom h

/-! ## Texts with given lexemes -/

/-- The text is split into lexemes of these kinds wherever it starts, and neither a NUL nor a byte
order mark is at its start. -/
structure Splits (text : List Char) (kinds : List LexemeKind) : Prop where
  split : ∀ column, (splitFrom text column 0).map Lexeme.kind = kinds
  start : ∀ c ∈ text.head?, c ≠ '\x00' ∧ c ≠ '\ufeff'

/-- No name goes on with this text. -/
def Parted (text : List Char) : Prop := ∀ c ∈ text.head?, Text.continuesName c = false

theorem Splits.kinds_split {text : String} (h : Splits text.toList kinds) :
    (Lexeme.split text).map Lexeme.kind = kinds := by
  unfold Lexeme.split
  split
  next rest hmark =>
    have hstart := h.start '\ufeff' (by rw [hmark]; rfl)
    exact absurd rfl hstart.2
  · exact h.split 1

theorem Splits.nil : Splits [] [] := ⟨fun _ => rfl, by simp⟩

theorem Splits.blank (h : Splits text kinds) : Splits (' ' :: text) kinds := by
  constructor
  · intro column
    rw [splitFrom]
    exact h.split _
  · simp

/-- The characters that belong to the lexeme before are passed over. -/
theorem splitFrom_skip (chars rest : List Char) (column : Nat) :
    ∃ column', splitFrom (chars ++ rest) column chars.length = splitFrom rest column' 0 := by
  induction chars generalizing column with
  | nil => exact ⟨column, rfl⟩
  | cons c chars ih => exact ih _

/-- The characters that no lexeme starts with. -/
def gaps : List Char := [' ', '\t', '\n', '\r', '\x00', '\ufeff']

/-- A lexeme in front of a text that it does not go on with. -/
theorem Splits.lexeme {kind : LexemeKind} (h : Splits rest kinds) (hc : c ∉ gaps)
    (hfirst : first c (chars ++ rest) = (kind, chars.length + 1))
    (hkind : ∀ fault, kind ≠ .broken fault) :
    Splits (c :: (chars ++ rest)) (kind :: kinds) := by
  have hblank : isBlank c = false := by
    simp only [gaps, mem_cons, not_or] at hc
    simp [isBlank, hc]
  have hstart : c ≠ '\x00' ∧ c ≠ '\ufeff' := by
    simp only [gaps, mem_cons, not_or] at hc
    simp [hc]
  constructor
  · intro column
    -- what follows the lexeme does not start with a NUL, which would spoil it
    have hbehind : (chars ++ rest)[chars.length + 1 - 1]? ≠ some '\x00' := by
      intro hnul
      have hhead : rest.head? = some '\x00' := by
        rwa [Nat.add_sub_cancel, getElem?_append_right (Nat.le_refl _), Nat.sub_self,
          ← head?_eq_getElem?] at hnul
      exact (h.start _ (by rw [hhead]; rfl)).1 rfl
    have hsplit : splitFrom (c :: (chars ++ rest)) column 0 = ⟨kind, column⟩ ::
        splitFrom (chars ++ rest) (if c = '\n' then 1 else column + 1) chars.length := by
      simp only [splitFrom, hblank, hfirst, hstart.1, hbehind, if_false, Bool.false_eq_true]
      cases kind with
      | broken fault => exact absurd rfl (hkind fault)
      | name _ | integer _ | symbol _ => rfl
    obtain ⟨column', hskip⟩ := splitFrom_skip chars rest (if c = '\n' then 1 else column + 1)
    rw [hsplit, map_cons, hskip, h.split]
  · intro d hd
    obtain rfl : c = d := by simpa using hd
    exact hstart

theorem takeWhile_append_of_stop {p : Char → Bool} (hchars : ∀ c ∈ chars, p c = true)
    (hrest : ∀ c ∈ rest.head?, p c = false) : (chars ++ rest).takeWhile p = chars := by
  have hstop : rest.takeWhile p = [] := by
    cases rest with
    | nil => rfl
    | cons c rest => simp [hrest c rfl]
  rw [takeWhile_append_of_pos hchars, hstop, append_nil]

/-- The characters that stand for themselves in the text of a type. -/
def marks : List Char := ['&', '\'', '[', ']', '(', ')', '<', '>', '-', ',', ';', '.']

theorem Splits.symbol (h : Splits rest kinds) (hc : c ∈ marks) :
    Splits (c :: rest) (.symbol c :: kinds) := by
  have hplain : ∀ c ∈ marks, c ∉ gaps ∧ Text.startsName c = false ∧ c.isDigit = false := by
    simp only [marks, forall_mem_cons, not_mem_nil, false_implies, implies_true, and_true]
    decide
  obtain ⟨hgap, hname, hdigit⟩ := hplain c hc
  have hfirst : first c ([] ++ rest) = (.symbol c, ([] : List Char).length + 1) := by
    simp [first, hname, hdigit]
  exact h.lexeme hgap hfirst (by simp)

/-- A name in front of what does not go on with it is split off. -/
theorem Splits.name {n : String} (h : Splits rest kinds) (hn : Text.isName n = true)
    (hrest : Parted rest) :
    Splits (n.toList ++ rest) (.name n :: kinds) := by
  unfold Text.isName at hn
  split at hn
  · cases hn
  next c chars hchars =>
    rw [Bool.and_eq_true, List.all_eq_true] at hn
    obtain ⟨hc, hmore⟩ := hn
    have hgap : c ∉ gaps := by
      have hgaps : ∀ d ∈ gaps, Text.startsName d = false := by
        simp only [gaps, forall_mem_cons, not_mem_nil, false_implies, implies_true, and_true]
        exact ⟨by decide, by decide, by decide, by decide, by decide, Text.startsName_byteOrderMark⟩
      intro hmem
      rw [hgaps c hmem] at hc
      cases hc
    have hfirst : first c (chars ++ rest) = (.name n, chars.length + 1) := by
      rw [first, if_pos hc, takeWhile_append_of_stop hmore hrest]
      simp [← hchars, hchars.symm ▸ length_cons]
    rw [hchars]
    exact h.lexeme hgap hfirst (by simp)

theorem announcedRadix_of_ne_zero (hc : c ≠ '0') (rest : List Char) :
    announcedRadix (c :: rest) = (.decimal, 0) := by
  unfold announcedRadix
  split
  · next heq => exact absurd (List.cons.inj heq).1 hc
  · next heq => exact absurd (List.cons.inj heq).1 hc
  · rfl

theorem startsName_of_isDigit (h : c.isDigit = true) : Text.startsName c = false := by
  have hdigits : ∀ k < 10, Text.startsName (Char.ofNat (48 + k)) = false := by decide
  have hrange := Number.isDigit_range h
  have hc := hdigits (c.toNat - 48) (by omega)
  rwa [Nat.add_sub_cancel' hrange.1, Char.ofNat_toNat] at hc

/-- Digits that do not start with a zero are an integer. -/
theorem first_of_digits (hc : c ≠ '0') (hdigits : ∀ d ∈ c :: chars, d.isDigit = true)
    (hrest : ∀ d ∈ rest.head?, (d == '_' || d.isDigit) = false) :
    first c (chars ++ rest) = (.integer (String.ofList (c :: chars)), chars.length + 1) := by
  have hdigit : c.isDigit = true := hdigits c mem_cons_self
  have hchars : integerChars (c :: (chars ++ rest)) = c :: chars := by
    rw [integerChars_of_unannounced (by rw [announcedRadix_of_ne_zero hc]), ← cons_append]
    exact takeWhile_append_of_stop (fun d hd => by simp [hdigits d hd]) hrest
  have hlow : '_' ∉ c :: chars := fun hmem => absurd (hdigits _ hmem) (by decide)
  -- no digit is too large for the base, and there are no underscores to be misplaced
  have hfault : integerFault? (c :: chars) = none := by
    have hfilter : (c :: chars).filter (· ≠ '_') = c :: chars := by
      rw [filter_eq_self]
      intro d hd
      rw [decide_eq_true_iff]
      rintro rfl
      exact hlow hd
    have hfind : (c :: chars).find? (fun d =>
        Radix.decimal ≠ .hexadecimal && decide (Radix.base .decimal ≤ d.toNat - 48)) = none := by
      rw [find?_eq_none]
      intro d hd
      have hrange := Number.isDigit_range (hdigits d hd)
      have hbase : ¬ Radix.base .decimal ≤ d.toNat - 48 := by
        rw [Radix.base]
        omega
      simp [hbase]
    simp only [integerFault?, announcedRadix_of_ne_zero hc, drop_zero, hfilter, hfind, hlow]
    simp
  simp only [first, startsName_of_isDigit hdigit, hdigit, hchars, hfault]
  simp

/-- A number in decimal digits, at the end of an array. -/
theorem Splits.integer (n : Nat)
    (h : Splits (']' :: rest) kinds) :
    Splits (n.repr.toList ++ ']' :: rest) (.integer n.repr :: kinds) := by
  -- zero is the one number whose first digit is a zero
  rcases Nat.eq_zero_or_pos n with rfl | hn
  · have hfirst : first '0' ([] ++ ']' :: rest) = (.integer "0", ([] : List Char).length + 1) := by
      have hchars : integerChars ('0' :: ']' :: rest) = ['0'] := by
        rw [integerChars_of_unannounced (by simp [announcedRadix])]
        simp
      have hfault : integerFault? ['0'] = none := by decide
      simp only [nil_append, first, hchars, hfault]
      rfl
    exact h.lexeme (by decide) hfirst (by simp)
  · obtain ⟨c, chars, hchars⟩ : ∃ c chars, n.repr.toList = c :: chars := by
      rw [Nat.toList_repr]
      exact exists_cons_of_ne_nil Nat.toDigits_ne_nil
    have hdigits : ∀ d ∈ c :: chars, d.isDigit = true := by
      intro d hd
      exact Number.isDigit_of_mem_repr (hchars ▸ hd)
    have hc : c ≠ '0' := by
      rintro rfl
      have hhead := Number.head_toDigits_ne_zero hn
      rw [← Nat.toList_repr, hchars] at hhead
      exact hhead rfl
    have hgap : c ∉ gaps := by
      have hgaps : ∀ d ∈ gaps, d.isDigit = false := by
        simp only [gaps, forall_mem_cons, not_mem_nil, false_implies, implies_true, and_true]
        decide
      intro hmem
      exact absurd (hdigits c mem_cons_self) (by simp [hgaps c hmem])
    have hfirst : first c (chars ++ ']' :: rest) = (.integer n.repr, chars.length + 1) := by
      rw [first_of_digits hc hdigits (by simp), ← hchars, String.ofList_toList]
    rw [hchars]
    exact h.lexeme hgap hfirst (by simp)

end Lexeme

end UnitCheck
