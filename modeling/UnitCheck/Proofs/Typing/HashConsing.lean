import Mathlib.Algebra.Group.Int.Defs
import Mathlib.Algebra.Group.Nat.Defs
import UnitCheck.Proofs.Typing.Reachability

/-!
# Hash-consing

Every registered type is there once, after its parts, under its place. A registry finds a type by
comparing types; it may as well compare digests of encodings in which the ids of the parts stand for
the parts:

* `Interned.encoding_inj` — within the bounds of the encoding, types over registered parts have
  different encodings.
* `internByDigest_run` — so that looking up digests is looking up types, as long as the digests of
  the encodings differ.
* `registry_hash_consed` — what this means for the registries that calls can lead to.
-/

namespace UnitCheck

open Relation List Option

/-! ## Numbers and texts as bytes -/

/-- A number in so many bytes, the most significant one first. -/
def bigEndian : (width : Nat) → Nat → List UInt8
  | 0, _ => []
  | w + 1, n => UInt8.ofNat (n / 256 ^ w) :: bigEndian w (n % 256 ^ w)

theorem length_bigEndian (w n : Nat) : (bigEndian w n).length = w := by
  induction w generalizing n with
  | zero => rfl
  | succ w ih => rw [bigEndian, length_cons, ih]

/-- The digits tell numbers apart that fit into them. -/
theorem bigEndian_inj {w m n : Nat} (hm : m < 256 ^ w) (hn : n < 256 ^ w)
    (h : bigEndian w m = bigEndian w n) : m = n := by
  induction w generalizing m n with
  | zero => omega
  | succ w ih =>
    have hpos : 0 < 256 ^ w := Nat.pow_pos (by decide)
    obtain ⟨hfirst, hrest⟩ := List.cons.inj h
    have hmod : m % 256 ^ w = n % 256 ^ w := ih (Nat.mod_lt m hpos) (Nat.mod_lt n hpos) hrest
    -- the first byte is the whole quotient, since the number is not too large
    have hdiv : m / 256 ^ w = n / 256 ^ w := by
      have hquot : ∀ {k : Nat}, k < 256 ^ (w + 1) → k / 256 ^ w < 256 := fun hk =>
        Nat.div_lt_of_lt_mul (by rwa [← Nat.pow_succ])
      have hbyte := congrArg UInt8.toNat hfirst
      rwa [UInt8.toNat_ofNat', UInt8.toNat_ofNat', Nat.mod_eq_of_lt (hquot hm),
        Nat.mod_eq_of_lt (hquot hn)] at hbyte
    rw [← Nat.div_add_mod m (256 ^ w), ← Nat.div_add_mod n (256 ^ w), hdiv, hmod]

theorem bigEndian_append_inj {w m n : Nat} (hm : m < 256 ^ w) (hn : n < 256 ^ w)
    {x y : List UInt8} (h : bigEndian w m ++ x = bigEndian w n ++ y) : m = n ∧ x = y := by
  obtain ⟨hfront, hrest⟩ := append_inj h (by rw [length_bigEndian, length_bigEndian])
  exact ⟨bigEndian_inj hm hn hfront, hrest⟩

/-- A text with its length in front. -/
def textCode (s : String) : List UInt8 := bigEndian 4 s.utf8ByteSize ++ s.toUTF8.data.toList

theorem textCode_append_inj {s t : String} (hs : s.utf8ByteSize < 2 ^ 32)
    (ht : t.utf8ByteSize < 2 ^ 32) {x y : List UInt8} (h : textCode s ++ x = textCode t ++ y) :
    s = t ∧ x = y := by
  rw [textCode, textCode, append_assoc, append_assoc] at h
  obtain ⟨hlen, hrest⟩ := bigEndian_append_inj hs ht h
  obtain ⟨hbytes, hxy⟩ := append_inj hrest hlen
  exact ⟨String.toByteArray_inj.mp (ByteArray.ext (Array.toList_inj.mp hbytes)), hxy⟩

/-- The length of an array as a 64-bit word; one that is not declared counts as `-1`. -/
def lengthCode (n : Option Int) : Nat := (n.getD (-1) % 2 ^ 64).toNat

/-- A length that has a word of its own. -/
def LengthFits : Option Int → Prop
  | none => True
  | some k => k ≠ -1 ∧ -2 ^ 63 ≤ k ∧ k < 2 ^ 63

instance : (n : Option Int) → Decidable (LengthFits n)
  | none => inferInstanceAs (Decidable True)
  | some k => inferInstanceAs (Decidable (k ≠ -1 ∧ -2 ^ 63 ≤ k ∧ k < 2 ^ 63))

theorem lengthCode_lt (n : Option Int) : lengthCode n < 256 ^ 8 := by
  unfold lengthCode
  omega

theorem lengthCode_inj {m n : Option Int} (hm : LengthFits m) (hn : LengthFits n)
    (h : lengthCode m = lengthCode n) : m = n := by
  unfold lengthCode at h
  cases m <;> cases n <;> simp only [LengthFits, getD_none, getD_some] at hm hn h
  case none.none => rfl
  case none.some => omega
  case some.none => omega
  case some.some => exact congrArg some (by omega)

namespace Ty

/-- What the encoding of a type has room for. -/
def Fits : Ty → Prop
  | array _ n => LengthFits n
  | tuple elems => elems.length < 2 ^ 32
  | func params _ => params.length < 2 ^ 32
  | ref _ _ l => l ≠ some "" ∧ (l.getD "").utf8ByteSize < 2 ^ 32
  | named name args => name.utf8ByteSize < 2 ^ 32 ∧ args.length < 2 ^ 32
  | basic _ | var _ => True

instance : (t : Ty) → Decidable t.Fits
  | array _ n => inferInstanceAs (Decidable (LengthFits n))
  | tuple elems => inferInstanceAs (Decidable (elems.length < 2 ^ 32))
  | func params _ => inferInstanceAs (Decidable (params.length < 2 ^ 32))
  | ref _ _ l => inferInstanceAs (Decidable (l ≠ some "" ∧ (l.getD "").utf8ByteSize < 2 ^ 32))
  | named name args =>
    inferInstanceAs (Decidable (name.utf8ByteSize < 2 ^ 32 ∧ args.length < 2 ^ 32))
  | basic _ | var _ => inferInstanceAs (Decidable True)

/-- Whether a type is put together from parts. -/
def composite : Ty → Bool
  | basic _ | var _ => false
  | _ => true

end Ty

open Ty

namespace Registry

variable {r : Registry} {t : Ty}

/-! ## Encodings -/

/-- The ids of types, with their number in front. -/
def idsCode (r : Registry) (ts : List Ty) : List UInt8 :=
  bigEndian 4 ts.length ++ ts.flatMap fun t => bigEndian 4 (r.idOf t)

/-- A type over registered parts as bytes: a letter for its kind, its data, and the ids of its
parts. -/
def encoding (r : Registry) : Ty → List UInt8
  | .array elem n => 65 :: (bigEndian 4 (r.idOf elem) ++ bigEndian 8 (lengthCode n))
  | .tuple elems => 84 :: r.idsCode elems
  | .func params result => 70 :: (r.idsCode params ++ bigEndian 4 (r.idOf result))
  | .ref inner m l =>
    82 :: (bigEndian 4 (r.idOf inner) ++ (if m then 1 else 0) :: textCode (l.getD ""))
  | .named name args => 78 :: (textCode name ++ r.idsCode args)
  | .basic _ | .var _ => []

theorem getD_inj {k l : Option String} (hk : k ≠ some "") (hl : l ≠ some "")
    (h : k.getD "" = l.getD "") : k = l := by
  cases k <;> cases l <;> simp_all

theorem Interned.idOf_inj (h : r.Interned) {u : Ty} (ht : r.Holds t)
    (hu : r.Holds u) (heq : r.idOf t = r.idOf u) : t = u := by
  obtain ⟨i, hi⟩ := mem_iff_getElem?.mp ht
  obtain ⟨j, hj⟩ := mem_iff_getElem?.mp hu
  rw [h.idOf_eq hi, h.idOf_eq hj] at heq
  rw [heq, hj] at hi
  exact (some.inj hi).symm

theorem Interned.idOf_lt (h : r.Interned) (ht : r.Holds t) : r.idOf t < r.size := by
  obtain ⟨i, hi⟩ := mem_iff_getElem?.mp ht
  obtain ⟨hlt, _⟩ := List.getElem?_eq_some_iff.mp hi
  rwa [h.idOf_eq hi, ← length_types]

theorem Interned.eq_of_map_idOf (h : r.Interned) {ts us : List Ty}
    (ht : ∀ t ∈ ts, r.Holds t) (hu : ∀ u ∈ us, r.Holds u)
    (heq : ts.map r.idOf = us.map r.idOf) : ts = us := by
  induction ts generalizing us with
  | nil => exact (map_eq_nil_iff.mp heq.symm).symm
  | cons t ts ih =>
    cases us with
    | nil => cases heq
    | cons u us =>
      rw [forall_mem_cons] at ht hu
      obtain ⟨hid, hrest⟩ := List.cons.inj heq
      rw [h.idOf_inj ht.1 hu.1 hid, ih ht.2 hu.2 hrest]

section

variable {r : Registry} (h : r.Interned) (hsize : r.size ≤ 2 ^ 32)

include h hsize

theorem Interned.id_append_inj {u : Ty} (ht : r.Holds t) (hu : r.Holds u) {x y : List UInt8}
    (heq : bigEndian 4 (r.idOf t) ++ x = bigEndian 4 (r.idOf u) ++ y) : t = u ∧ x = y := by
  obtain ⟨hid, hxy⟩ := bigEndian_append_inj ((h.idOf_lt ht).trans_le hsize)
    ((h.idOf_lt hu).trans_le hsize) heq
  exact ⟨h.idOf_inj ht hu hid, hxy⟩

/-- The code of a list says where it ends, so that what follows it can be told apart. -/
theorem Interned.idsCode_append_inj {ts us : List Ty} (ht : ∀ t ∈ ts, r.Holds t)
    (hu : ∀ u ∈ us, r.Holds u) (hlt : ts.length < 2 ^ 32) (hlu : us.length < 2 ^ 32)
    {x y : List UInt8} (heq : r.idsCode ts ++ x = r.idsCode us ++ y) : ts = us ∧ x = y := by
  rw [idsCode, idsCode, append_assoc, append_assoc] at heq
  obtain ⟨hlen, hrest⟩ := bigEndian_append_inj hlt hlu heq
  clear heq hlt hlu
  induction ts generalizing us with
  | nil =>
    obtain rfl : us = [] := length_eq_zero_iff.mp hlen.symm
    exact ⟨rfl, hrest⟩
  | cons t ts ih =>
    cases us with
    | nil => cases hlen
    | cons u us =>
      rw [forall_mem_cons] at ht hu
      obtain ⟨rfl, htail⟩ := h.id_append_inj hsize ht.1 hu.1 hrest
      obtain ⟨rfl, hxy⟩ := ih ht.2 hu.2 (Nat.succ.inj hlen) htail
      exact ⟨rfl, hxy⟩

/-- **The encoding tells types over registered parts apart.** -/
theorem Interned.encoding_inj {u : Ty} (ht : ∀ x ∈ t.parts, r.Holds x)
    (hu : ∀ x ∈ u.parts, r.Holds x)
    (hct : t.composite = true) (hcu : u.composite = true) (hft : t.Fits) (hfu : u.Fits)
    (heq : r.encoding t = r.encoding u) : t = u := by
  cases t <;> cases u
  case array.array x m y n =>
    obtain ⟨rfl, hlen⟩ := h.id_append_inj hsize (ht x mem_cons_self)
      (hu y mem_cons_self) (List.cons.inj heq).2
    rw [lengthCode_inj hft hfu (bigEndian_inj (lengthCode_lt m) (lengthCode_lt n) hlen)]
  case tuple.tuple xs ys =>
    have hids : r.idsCode xs ++ [] = r.idsCode ys ++ [] := by
      rw [append_nil, append_nil, (List.cons.inj heq).2]
    exact congrArg tuple (h.idsCode_append_inj hsize ht hu hft hfu hids).1
  case func.func xs x ys y =>
    obtain ⟨rfl, hres⟩ := h.idsCode_append_inj hsize (fun t hm => ht t (mem_append_left _ hm))
      (fun t hm => hu t (mem_append_left _ hm)) hft hfu (List.cons.inj heq).2
    have hid : bigEndian 4 (r.idOf x) ++ [] = bigEndian 4 (r.idOf y) ++ [] := by rw [hres]
    rw [(h.id_append_inj hsize (ht x mem_concat_self) (hu y mem_concat_self) hid).1]
  case ref.ref x m l y n k =>
    obtain ⟨rfl, hrest⟩ := h.id_append_inj hsize (ht x mem_cons_self)
      (hu y mem_cons_self) (List.cons.inj heq).2
    obtain ⟨hflag, htext⟩ := List.cons.inj hrest
    have hmut : m = n := by
      revert hflag
      cases m <;> cases n <;> decide
    have hlife : textCode (l.getD "") ++ [] = textCode (k.getD "") ++ [] := by rw [htext]
    rw [hmut, getD_inj hft.1 hfu.1 (textCode_append_inj hft.2 hfu.2 hlife).1]
  case named.named n xs k ys =>
    obtain ⟨rfl, hargs⟩ := textCode_append_inj hft.1 hfu.1 (List.cons.inj heq).2
    have hids : r.idsCode xs ++ [] = r.idsCode ys ++ [] := by rw [hargs]
    exact congrArg (named n) (h.idsCode_append_inj hsize ht hu hft.2 hfu.2 hids).1
  -- two kinds have two letters, and what has no letter is not made of parts
  all_goals simp [composite, encoding] at hct hcu heq

end

/-! ## Looking up digests -/

/-- A type put together from parts, with the digest of the encoding of `t`. -/
def sameDigest {δ : Type} [DecidableEq δ] (r : Registry) (digest : List UInt8 → δ) (t u : Ty) :
    Bool :=
  u.composite && decide (digest (r.encoding u) = digest (r.encoding t))

/-- Interning by digests: a type is found by the digest of its encoding. -/
def internByDigest {δ : Type} [DecidableEq δ] (digest : List UInt8 → δ)
    (t : Ty) : RegistryM Ty := do
  let r ← get
  match r.types.find? (r.sameDigest digest t) with
  | some u => return u
  | none =>
    set { r with entries := r.entries.push (.of t) }
    return t

/-- **Looking up digests is looking up types.** -/
theorem internByDigest_run (h : r.Interned) (hsize : r.size ≤ 2 ^ 32)
    (hfits : ∀ u, r.Holds u → u.Fits) {δ : Type} [DecidableEq δ] {digest : List UInt8 → δ}
    (hct : t.composite = true) (ht : ∀ x ∈ t.parts, r.Holds x) (hft : t.Fits)
    (hdigest : ∀ u, r.Holds u → digest (r.encoding u) = digest (r.encoding t) →
      r.encoding u = r.encoding t) :
    (internByDigest digest t).run r = (intern t).run r := by
  -- a type that is found has the digest of `t`, hence its encoding, hence is `t`
  have honly : ∀ {u}, r.types.find? (r.sameDigest digest t) = some u → u = t ∧ r.Holds u := by
    intro u hfind
    have hu := mem_of_find?_eq_some hfind
    have hsame := find?_some hfind
    rw [sameDigest, Bool.and_eq_true, decide_eq_true_eq] at hsame
    exact ⟨h.encoding_inj hsize (fun x hx => h.holds_part hu hx) ht hsame.1 hct (hfits u hu) hft
      (hdigest u hu hsame.2), hu⟩
  have hintern : (intern t).run r = (t, r.add t) := rfl
  rw [hintern]
  unfold internByDigest
  rw [StateT.run_bind, StateT.run_get, pure_bind]
  split
  next u hfind =>
    obtain ⟨rfl, hu⟩ := honly hfind
    rw [add_of_holds hu]
    rfl
  next hfind =>
    have hno : Entry.of t ∉ r.entries := by
      intro hmem
      have hself : r.sameDigest digest t t = true := by simp [sameDigest, hct]
      exact find?_eq_none.mp hfind t (entry_mem_iff.mp hmem) hself
    rw [add, if_neg hno]
    rfl

/-! ## Registering again -/

theorem registerAll_run_of_each {ts : List Ty} (hts : ∀ t ∈ ts, (register t).run r = (t.tidy, r)) :
    (registerAll ts).run r = (ts.map tidy, r) := by
  induction ts with
  | nil => exact registerAll_nil_run r
  | cons t ts ih =>
    rw [forall_mem_cons] at hts
    rw [registerAll_cons_run, hts.1, ih hts.2, map_cons]

/-- A type that is registered already is found again, and the registry stays as it is. -/
theorem register_run_of_tidy (h : r.Interned) (ht : r.Holds t.tidy) :
    (register t).run r = (t.tidy, r) := by
  induction t using induction_on_parts with
  | var v =>
    rw [tidy] at ht ⊢
    exact register_run_of_holds h ht
  | node t hnv ih =>
    by_cases hheld : r.Holds t
    · rw [register_run_of_holds h hheld, h.tidy_eq hheld]
    rcases compound_cases t with ⟨v, rfl⟩ | ⟨b, rfl⟩ | rfl | hc
    · exact absurd rfl (hnv v)
    · exact absurd (h.basic b) hheld
    · rw [register_run_of_empty h, tidy]
    · have hlen : (t.parts.map tidy).length = t.parts.length := length_map _
      have hparts : ∀ u ∈ t.parts, (register u).run r = (u.tidy, r) := by
        intro u hu
        refine ih u hu (h.holds_part ht ?_)
        rw [hc.tidy_eq, parts_rebuild hlen]
        exact List.mem_map_of_mem hu
      rw [register_run_of_compound (h.contains_eq_false hheld) hc, registerAll_run_of_each hparts,
        ← hc.tidy_eq, add_of_holds ht]

/-! ## Registries in use -/

/-- **Hash-consing.** In every registry that calls can lead to:

* the type at a place has that place as its id;
* the parts of a type are there, at smaller ids;
* types that are no variables and have one label, one lifetime and the same parts are at one place;
* registering a type over the variables of the registry returns a registered type, equal to it but
  for `unit` in place of empty tuples, and registering it again returns that and adds nothing;
* no call changes or removes what is there;
* and finding types by digests of their encodings comes to the same, as long as the registry and its
  types are within the bounds of the encoding and different encodings have different digests. -/
theorem registry_hash_consed {r : Registry} (h : r.Reachable) :
    (∀ i t, r.get? i = some t → r.idOf t = i) ∧
    (∀ i t, r.get? i = some t → ∀ u ∈ t.parts, r.get? (r.idOf u) = some u ∧ r.idOf u < i) ∧
    (∀ i j t u, r.get? i = some t → r.get? j = some u → (∀ v, t ≠ .var v) →
      t.label = u.label → t.lifetime = u.lifetime → t.parts.map r.idOf = u.parts.map r.idOf →
      i = j) ∧
    (∀ t, r.Spans t →
      let out := (register t).run r
      out.1 = t.tidy ∧ out.2.get? (out.2.idOf out.1) = some out.1 ∧ (register t).run out.2 = out) ∧
    (∀ r', r.Later r' → ∀ i t, r.get? i = some t → r'.get? i = some t) ∧
    (∀ {δ : Type} [DecidableEq δ] (digest : List UInt8 → δ) (t : Ty),
      r.size ≤ 2 ^ 32 → (∀ u, r.Holds u → u.Fits) → t.Fits → t.composite = true →
      (∀ u ∈ t.parts, r.Holds u) →
      (∀ u, r.Holds u → digest (r.encoding u) = digest (r.encoding t) →
        r.encoding u = r.encoding t) →
      (internByDigest digest t).run r = (intern t).run r) := by
  have hc := h.consistent
  have hi := hc.toInterned
  have hholds : ∀ {i t}, r.get? i = some t → r.Holds t := fun ht => holds_iff_get?.mpr ⟨_, ht⟩
  refine ⟨?_, ?_, ?_, ?_, ?_, ?_⟩
  · intro i t ht
    exact hi.idOf_eq (by rwa [← get?_eq])
  · intro i t ht u hu
    rw [get?_eq] at ht
    obtain ⟨j, hj, hget⟩ := hi.parts_before ht u hu
    rw [hi.idOf_eq hget, get?_eq]
    exact ⟨hget, hj⟩
  · intro i j t u ht hu _ hlab hlife hids
    have hparts : t.parts = u.parts := hi.eq_of_map_idOf
      (fun x hx => hi.holds_part (hholds ht) hx) (fun x hx => hi.holds_part (hholds hu) hx) hids
    obtain rfl := eq_of_shape hlab hlife hparts
    rw [get?_eq] at ht hu
    rw [← hi.idOf_eq ht, hi.idOf_eq hu]
  · intro t hs
    have hreg := register_run hi hs
    refine ⟨hreg.type_eq, ?_, ?_⟩
    · rw [hreg.type_eq]
      exact hreg.interned.get?_idOf hreg.holds
    · rw [register_run_of_tidy hreg.interned hreg.holds]
      exact Prod.ext hreg.type_eq.symm rfl
  · intro r' hl i t ht
    rw [get?_eq] at ht ⊢
    exact (hl.evolves hc).extends_.get? ht
  · intro δ _ digest t hsize hfits hft hct ht hdigest
    exact internByDigest_run hi hsize hfits hct ht hft hdigest

/-- A tuple with an empty tuple in it, registered twice, and a tuple found by its encoding. -/
theorem registry_hash_consed_sample :
    let t := Ty.tuple [Sample.left, .tuple []]
    let out := (register t).run Sample.registry
    out.1 = .tuple [Sample.left, .unit] ∧ (register t).run out.2 = out ∧
      (internByDigest id Sample.left).run Sample.registry =
        (intern Sample.left).run Sample.registry := by
  intro t out
  obtain ⟨_, _, _, hregister, _, hdigest⟩ := registry_hash_consed Sample.reachable
  obtain ⟨htidy, _, hagain⟩ := hregister t (by decide +kernel)
  refine ⟨htidy, hagain, ?_⟩
  have hfits : ∀ u ∈ Sample.registry.types, u.Fits := by decide +kernel
  have hparts : ∀ u ∈ Sample.left.parts, Sample.registry.Holds u := by decide +kernel
  exact hdigest id Sample.left (by decide +kernel) hfits (by decide +kernel) rfl hparts
    fun _ _ heq => heq

end Registry

end UnitCheck
