import UnitCheck.Proofs.Tree.Printing
import UnitCheck.Proofs.Typing.HashConsing

/-!
# The text of a type, read back

Every type has an annotation with its text, `Ty.expr`. What annotations stand for is `Spoken`:
converting its annotation, or any other one that differs from it by what a text does not tell, finds
the type again (`Spoken.convert_run`).

The text is read as the annotation of the type unless there is a reference in it that is not `mut`
to a type whose name starts with `mut`.
-/

namespace UnitCheck

open TypeExpr List

namespace Text

theorem cutDots_of_not_mem {s : List Char} (h : '.' ∉ s) : cutDots s = [s] := by
  induction s with
  | nil => rfl
  | cons c s ih =>
    rw [mem_cons, not_or] at h
    rw [cutDots, if_neg (Ne.symm h.1), ih h.2, consFirst]

theorem cutDots_append {s : List Char} (h : '.' ∉ s) (rest : List Char) :
    cutDots (s ++ '.' :: rest) = s :: cutDots rest := by
  induction s with
  | nil => simp [cutDots]
  | cons c s ih =>
    rw [mem_cons, not_or] at h
    rw [cons_append, cutDots, if_neg (Ne.symm h.1), ih h.2, consFirst]

/-- A path of names is found again in the dotted name. -/
theorem dotSegments_dotted {path : List String}
    (hne : path ≠ []) (h : ∀ s ∈ path, isName s = true) :
    dotSegments (dotted path) = path := by
  induction path with
  | nil => exact absurd rfl hne
  | cons first more ih =>
    rw [forall_mem_cons] at h
    have hdot : '.' ∉ first.toList := fun hm => absurd (continuesName_of_mem h.1 _ hm) (by decide)
    cases more with
    | nil => simp [dotSegments, dotted, cutDots_of_not_mem hdot]
    | cons second more =>
      have hmore := ih (by simp) h.2
      have hlist : (dotted (first :: second :: more)).toList =
          first.toList ++ '.' :: (dotted (second :: more)).toList := by
        simp [dotted, String.intercalate_cons_cons]
      rw [dotSegments, hlist, cutDots_append hdot, map_cons, String.ofList_toList]
      exact congrArg _ hmore

end Text

namespace Ty

variable {t u : Ty}

/-! ## The annotation of a type -/

mutual

/-- The annotation with the text of a type. -/
def expr : Ty → TypeExpr
  | basic .unit => .tuple [] default
  | basic b => .named [b.text] [] default
  | array elem length => .array elem.expr length default
  | tuple elems => .tuple (exprs elems) default
  | func params result => .func (exprs params) (some result.expr) default
  | ref inner mutable lifetime => .ref inner.expr mutable lifetime default
  | named name args => .named (Text.dotSegments name) (exprs args) default
  | var v => .named [v.text] [] default

def exprs : List Ty → List TypeExpr
  | [] => []
  | t :: ts => t.expr :: exprs ts

end

theorem exprs_eq_map (ts : List Ty) : exprs ts = ts.map expr := by
  induction ts with
  | nil => rfl
  | cons t ts ih => rw [exprs, ih, map_cons]

theorem parts_expr (t : Ty) : t.expr.parts = t.expr :: t.parts.flatMap (·.expr.parts) := by
  have hlist : ∀ ts : List Ty, listParts (exprs ts) = ts.flatMap (·.expr.parts) := by
    intro ts
    induction ts with
    | nil => rfl
    | cons t ts ih => rw [exprs, listParts, ih, flatMap_cons]
  cases t with
  | basic b => cases b <;> rfl
  | _ => simp [expr, TypeExpr.parts, Ty.parts, hlist, resultParts, listParts]

/-- What annotations stand for is neither a variable nor the invalid type, and has unit in the place
of the empty tuple; a name that is not a path is not that of a basic type. -/
def Denoted : Ty → Prop
  | basic b => b ≠ .invalid
  | tuple elems => elems ≠ []
  | named name _ => Text.dotted (Text.dotSegments name) = name ∧
    ∀ n, Text.dotSegments name = [n] → Basic.ofName? n = none
  | var _ => False
  | _ => True

/-- A type that an annotation may stand for, together with all its parts. -/
inductive Spoken : Ty → Prop where
  | intro {t : Ty} (written : t.expr.Written) (denoted : t.Denoted)
    (parts : ∀ u ∈ t.parts, Spoken u) : Spoken t

theorem Spoken.written (h : t.Spoken) : ∀ a ∈ t.expr.parts, a.Written := by
  induction h with
  | intro written _ _ ih =>
    rw [parts_expr, forall_mem_cons]
    refine ⟨written, fun a ha => ?_⟩
    obtain ⟨u, hu, ha⟩ := mem_flatMap.mp ha
    exact ih u hu a ha

theorem texts_exprs {ts : List Ty} (h : ∀ u ∈ ts, u.expr.text = u.text) :
    TypeExpr.texts (exprs ts) = Ty.texts ts := by
  induction ts with
  | nil => rfl
  | cons t ts ih =>
    rw [forall_mem_cons] at h
    rw [exprs, TypeExpr.texts, Ty.texts, h.1, ih h.2]

/-- A type that can be spoken of is printed as the annotation for it. -/
theorem Spoken.text_expr (h : t.Spoken) : t.expr.text = t.text := by
  induction h with
  | @intro t _ denoted _ ih =>
    cases t with
    | basic b => cases b <;> decide +kernel
    | array elem length =>
      have helem := ih elem (.head [])
      cases length <;> simp [expr, TypeExpr.text, Ty.text, helem]
    | tuple elems =>
      have helems : TypeExpr.texts (exprs elems) = Ty.texts elems := texts_exprs ih
      rw [expr, TypeExpr.text, Ty.text, helems]
    | func params result =>
      have hparams := texts_exprs fun u hu => ih u (mem_append_left _ hu)
      have hresult := ih result (mem_append_right _ (.head []))
      rw [expr, TypeExpr.text, Ty.text, hparams, resultText, hresult]
    | ref inner m l =>
      have hinner := ih inner (.head [])
      cases l <;> simp [expr, TypeExpr.text, Ty.text, refMark, hinner]
    | named name args =>
      have hargs : TypeExpr.texts (exprs args) = Ty.texts args := texts_exprs ih
      cases args with
      | nil => simp [expr, exprs, TypeExpr.text, Ty.text, denoted.1]
      | cons a args =>
        rw [exprs] at hargs
        simp [expr, exprs, TypeExpr.text, Ty.text, denoted.1, hargs, Ty.texts]
    | var v => exact denoted.elim

/-- Somewhere in a type is a reference that is not `mut`, to a type whose name starts with `mut`. -/
inductive HidesMut : Ty → Prop where
  | here {name : String} {args : List Ty} {lifetime : Option String}
      (h : (Text.dotSegments name).head? = some "mut") :
        HidesMut (.ref (.named name args) false lifetime)
  | inside {t u : Ty} (hu : u ∈ t.parts) (h : HidesMut u) : HidesMut t

/-- The annotation hides a `mut` where the type does. -/
theorem Spoken.hidesMut_iff (hs : t.Spoken) : (∃ a ∈ t.expr.parts, a.HidesMut) ↔ t.HidesMut := by
  constructor
  · induction hs with
    | @intro t _ _ parts ih =>
      rw [parts_expr]
      rintro ⟨a, ha, more, args, pos, lifetime, pos', heq⟩
      rcases mem_cons.mp ha with rfl | ha
      · cases t with
        | basic b => cases b <;> cases heq
        | ref inner m l =>
          rw [expr, TypeExpr.ref.injEq] at heq
          -- only a name can begin with the segment `mut`
          obtain ⟨hinner, rfl, rfl, -⟩ := heq
          obtain ⟨_, hd, _⟩ := parts inner (.head [])
          cases inner with
          | named name args => exact .here (by rw [(TypeExpr.named.inj hinner).1]; rfl)
          | basic b => cases b <;> simp [expr, Basic.text] at hinner
          | var v => exact hd.elim
          | _ => cases hinner
        | _ => cases heq
      · obtain ⟨u, hu, ha⟩ := mem_flatMap.mp ha
        exact .inside hu (ih u hu ⟨a, ha, more, args, pos, lifetime, pos', heq⟩)
  · intro h
    clear hs
    induction h with
    | @here name args lifetime h =>
      obtain ⟨more, hname⟩ := head?_eq_some_iff.mp h
      refine ⟨_, mem_parts_self _, more, exprs args, default, lifetime, default, ?_⟩
      rw [expr, expr, hname]
    | inside hu _ ih =>
      obtain ⟨a, ha, hide⟩ := ih
      rw [parts_expr]
      exact ⟨a, mem_cons_of_mem _ (mem_flatMap.mpr ⟨_, hu, ha⟩), hide⟩

end Ty

namespace Registry

open Ty

variable {r : Registry} {t : Ty} {b : Basic}

/-! ## What annotations stand for -/

/-- What a conversion gives. -/
def Said (r : Registry) (t : Ty) : Prop := r.Holds t ∧ t.Spoken

theorem said_basic (h : r.Consistent) (hb : b ≠ .invalid) : Said r (.basic b) := by
  refine ⟨h.basic b, .intro ?_ hb fun u hu => by cases hu⟩
  cases b with
  | unit => simp [expr, Written]
  | _ => exact ⟨⟨_, _, rfl, by decide⟩, forall_mem_singleton.mpr (by decide +kernel)⟩

theorem ne_invalid_of_ofName? {name : String} (h : Basic.ofName? name = some b) : b ≠ .invalid := by
  rintro rfl
  unfold Basic.ofName? at h
  split at h <;> cases h

/-- A conversion that ends by registering a type over parts that are spoken. -/
theorem Converted.spoken (h : r.Consistent) (hw : t.expr.Written) (hd : t.Denoted)
    (hparts : ∀ u ∈ t.parts, Said r u) : Converted Said r
      ((liftM (Registry.register t) : ExceptT Diagnostic RegistryM Ty).run.run r) := by
  have htidy : t.tidy = t := by
    rcases compound_cases t with ⟨v, rfl⟩ | ⟨b, rfl⟩ | rfl | hc
    · exact hd.elim
    · rfl
    · exact absurd rfl hd
    · exact hc.tidy_of_parts fun u hu => h.tidy_eq (hparts u hu).1
  have hnv : ∀ v, t ≠ .var v := by
    rintro v rfl
    exact hd
  obtain ⟨hset, heq, hheld⟩ := h.register_parts hnv fun u hu => (hparts u hu).1
  have hspoken : ((Registry.register t).run r).1.Spoken := by
    rw [heq, htidy]
    exact .intro hw hd fun u hu => (hparts u hu).2
  exact ⟨hset, fun _ hu => Except.ok.inj hu ▸ ⟨hheld, hspoken⟩⟩

mutual

/-- Converting an annotation that can be written gives a type that can be spoken of. -/
theorem convert_spoken : (e : TypeExpr) → (∀ a ∈ e.parts, a.Written) →
      ∀ {r : Registry}, r.Consistent →
    Converted Said r ((e.convert converter).run.run r)
  | .named path args pos, hw, r, h => by
    rw [TypeExpr.parts, forall_mem_cons] at hw
    obtain ⟨⟨⟨first, more, rfl, hfirst⟩, hnames⟩, hargs⟩ := hw
    rw [TypeExpr.convert]
    refine (run_bind _ _ r).symm ▸ (convertAll_spoken args hargs h).andThen fun ts r' h' _ hts => ?_
    have hseg := Text.dotSegments_dotted (cons_ne_nil first more) hnames
    -- a path of more than one name, or a name that is no basic type
    have hnamed : (∀ n, first :: more = [n] → Basic.ofName? n = none) →
        Converted Said r' ((converter.named (first :: more) ts pos).run.run r') := by
      intro hno
      refine Converted.spoken h' ?_ ?_ hts.2
      · rw [expr, hseg]
        exact ⟨⟨first, more, rfl, hfirst⟩, hnames⟩
      · rw [Denoted, hseg]
        exact ⟨rfl, hno⟩
    unfold TypeExpr.convertName
    split
    next name heq =>
      obtain ⟨rfl, rfl⟩ := List.cons.inj heq
      split
      next b hb =>
        split
        · exact Converted.ok h' (said_basic h' (ne_invalid_of_ofName? hb))
        · exact Converted.error h' _
      next hb => exact hnamed fun n hn => (List.cons.inj hn).1 ▸ hb
    next hno => exact hnamed fun n hn => absurd hn (hno n)
  | .array elem length pos, hw, r, h => by
    rw [TypeExpr.parts, forall_mem_cons] at hw
    rw [TypeExpr.convert, run_bind]
    refine (convert_spoken elem hw.2 h).andThen fun t r' h' _ ht => ?_
    have hreg : Converted Said r'
        ((liftM (converter.register (.array t length)) : ExceptT Diagnostic RegistryM
          Ty).run.run r') :=
      Converted.spoken h' hw.1 trivial (by simpa [Ty.parts] using ht)
    split
    · exact hreg
    · split
      · exact Converted.error h' _
      · exact hreg
  | .tuple elems pos, hw, r, h => by
    rw [TypeExpr.parts, forall_mem_cons] at hw
    rw [TypeExpr.convert, run_bind]
    refine (convertAll_spoken elems hw.2 h).andThen fun ts r' h' _ hts => ?_
    cases ts with
    -- the empty tuple is registered as `unit`
    | nil =>
      show Converted Said r' (.ok ((register (.tuple [])).run r').1,
        ((register (.tuple [])).run r').2)
      rw [register_run_of_empty h'.toInterned]
      exact Converted.ok h' (said_basic h' (by decide))
    | cons t ts =>
      refine Converted.spoken h' ?_ (cons_ne_nil t ts) hts.2
      rw [expr, Written, exprs_eq_map, length_map, hts.1]
      exact hw.1
  | .func params result pos, hw, r, h => by
    rw [TypeExpr.parts, forall_mem_cons, forall_mem_append] at hw
    rw [TypeExpr.convert, run_bind]
    refine (convertAll_spoken params hw.2.1 h).andThen fun ps r' h' _ hps => ?_
    rw [run_bind]
    refine (convertResult_spoken result hw.2.2 h').andThen fun t r'' h'' hg ht => ?_
    refine Converted.spoken h'' trivial trivial ?_
    intro u hu
    rcases mem_append.mp hu with hu | hu
    · exact (hps.2 u hu).imp_left hg.holds
    · rwa [mem_singleton.mp hu]
  | .ref inner m l pos, hw, r, h => by
    rw [TypeExpr.parts, forall_mem_cons] at hw
    rw [TypeExpr.convert, run_bind]
    exact (convert_spoken inner hw.2 h).andThen fun _ _ h' _ ht =>
      Converted.spoken h' hw.1 trivial (by simpa [Ty.parts] using ht)

/-- So do the annotations of a list, one type each. -/
theorem convertAll_spoken : (es : List TypeExpr) → (∀ a ∈ listParts es, a.Written) →
      ∀ {r : Registry},
    r.Consistent → Converted (fun r ts => ts.length = es.length ∧ ∀ t ∈ ts, Said r t) r
      ((TypeExpr.convertAll converter es).run.run r)
  | [], _, r, h => by
    rw [TypeExpr.convertAll]
    exact Converted.ok h (by simp)
  | e :: es, hw, r, h => by
    rw [listParts, forall_mem_append] at hw
    rw [TypeExpr.convertAll, run_bind]
    refine (convert_spoken e hw.1 h).andThen fun t r' h' _ ht => ?_
    rw [run_bind]
    refine (convertAll_spoken es hw.2 h').andThen fun ts r'' h'' hg hts => ?_
    refine Converted.ok h'' ⟨?_, forall_mem_cons.mpr ⟨ht.imp_left hg.holds, hts.2⟩⟩
    rw [length_cons, length_cons, hts.1]

theorem convertResult_spoken : (e : Option TypeExpr) → (∀ a ∈ resultParts e, a.Written) →
      ∀ {r : Registry},
    r.Consistent → Converted Said r ((TypeExpr.convertResult converter e).run.run r)
  | none, _, r, h => by
    rw [TypeExpr.convertResult]
    exact Converted.ok h (said_basic h (by decide))
  | some e, hw, r, h => by
    rw [TypeExpr.convertResult]
    exact convert_spoken e hw h

end

/-! ## Finding a type again -/

/-- A list of annotations is converted back to the types that it was made from, if each one is. -/
theorem convertAll_run_of {ts : List Ty} {es : List TypeExpr} (hes : plains es = plains (exprs ts))
    (ih : ∀ t ∈ ts, ∀ {e : TypeExpr}, e.plain = t.expr.plain →
      (e.convert converter).run.run r = (.ok t, r)) :
    (TypeExpr.convertAll converter es).run.run r = (.ok ts, r) := by
  induction ts generalizing es with
  | nil =>
    cases es with
    | nil => rw [TypeExpr.convertAll]; rfl
    | cons e es => cases hes
  | cons t ts iht =>
    cases es with
    | nil => cases hes
    | cons e es =>
      rw [exprs, plains, plains, List.cons.injEq] at hes
      rw [forall_mem_cons] at ih
      rw [TypeExpr.convertAll, run_bind, ih.1 hes.1, andThen_ok, run_bind, iht hes.2 ih.2]
      rfl

theorem register_lift_run (h : r.Consistent) (ht : r.Holds t) :
    (liftM (converter.register t) : ExceptT Diagnostic RegistryM Ty).run.run r = (.ok t, r) := by
  show ((.ok ((register t).run r).1, ((register t).run r).2) : Except Diagnostic Ty × Registry) = _
  rw [register_run_of_holds h.toInterned ht]

theorem Consistent.convert_empty_run (h : r.Consistent) (pos : Position) :
    ((TypeExpr.tuple [] pos).convert converter).run.run r = (.ok .unit, r) := by
  show ((.ok ((register (.tuple [])).run r).1, ((register (.tuple [])).run r).2) :
    Except Diagnostic Ty × Registry) = _
  rw [register_run_of_empty h.toInterned]

/-- **A type is found again** by its annotation, and nothing is registered. -/
theorem Consistent.convert_expr_run (h : r.Consistent) (hs : t.Spoken)
    (ht : r.Holds t) {e : TypeExpr}
    (he : e.plain = t.expr.plain) : (e.convert converter).run.run r = (.ok t, r) := by
  induction hs generalizing e with
  | @intro t written denoted _ ih =>
    have hparts := fun u hu {e} => ih u hu (h.holds_part ht hu) (e := e)
    have hreg := register_lift_run h ht
    cases t with
    | basic b =>
      cases b with
      | invalid => exact absurd rfl denoted
      | unit =>
        cases e <;> simp [TypeExpr.plain, expr, plains_eq_map] at he
        subst he
        exact h.convert_empty_run _
      | _ =>
        cases e <;> simp [TypeExpr.plain, expr, plains_eq_map] at he
        obtain ⟨rfl, rfl⟩ := he
        rfl
    | array elem length =>
      cases e <;> simp [TypeExpr.plain, expr] at he
      next elem' length pos =>
      obtain ⟨helem, rfl⟩ := he
      rw [TypeExpr.convert, run_bind, hparts elem (.head []) helem, andThen_ok]
      cases length with
      | none => exact hreg
      | some n =>
        obtain ⟨m, rfl, -⟩ := written n rfl
        simp only [if_neg (Int.not_lt.mpr (Int.natCast_nonneg m))]
        exact hreg
    | tuple elems =>
      cases e <;> simp [TypeExpr.plain, expr] at he
      rw [TypeExpr.convert, run_bind, convertAll_run_of he hparts, andThen_ok]
      exact hreg
    | func params result =>
      cases e <;> simp [TypeExpr.plain, expr] at he
      next params' result' pos =>
      have hresult : (TypeExpr.convertResult converter result').run.run r = (.ok result, r) := by
        have hplain := fun e => hparts result (mem_append_right _ (.head [])) (e := e)
        cases result' with
        | some e =>
          rw [TypeExpr.convertResult]
          exact hplain e he.2
        | none =>
          -- a result that is not given stands for what `()` stands for
          have hunit := hplain (.tuple [] default) he.2
          rw [h.convert_empty_run] at hunit
          rw [TypeExpr.convertResult, ← hunit]
          rfl
      rw [TypeExpr.convert, run_bind, convertAll_run_of he.1 fun u hu =>
        hparts u (mem_append_left _ hu),
        andThen_ok, run_bind, hresult, andThen_ok]
      exact hreg
    | ref inner m l =>
      cases e <;> simp [TypeExpr.plain, expr] at he
      obtain ⟨hinner, rfl, rfl⟩ := he
      rw [TypeExpr.convert, run_bind, hparts inner (.head []) hinner, andThen_ok]
      exact hreg
    | named name args =>
      cases e <;> simp [TypeExpr.plain, expr] at he
      next path args' pos =>
      obtain ⟨rfl, hargs⟩ := he
      obtain ⟨⟨first, more, hpath, -⟩, -⟩ := written
      rw [Denoted, hpath] at denoted
      rw [hpath, TypeExpr.convert]
      refine (run_bind _ _ r).trans ?_
      rw [convertAll_run_of hargs hparts, andThen_ok]
      have hnamed :
        (converter.named (first :: more) args pos).run.run r = (.ok (.named name args), r) := by
        rw [← denoted.1] at hreg ⊢
        exact hreg
      unfold TypeExpr.convertName
      split
      next n heq =>
        rw [denoted.2 n heq]
        exact hnamed
      · exact hnamed
    | var v => exact denoted.elim

/-- **Types survive being printed.** The text of a type that an annotation stands for is read as an
annotation that stands for the same registered type, and nothing is registered on the way, unless a
reference in it that is not `mut` is to a type whose name starts with `mut`: then the text is not
read. -/
theorem convert_text_of_convert {r r' : Registry} (hr : r.Reachable) {written : String}
    {base : Position} {e : TypeExpr} (hread : TypeExpr.read written base = .ok e) {t : Ty}
    (hconv : (convert e).run.run r = (.ok t, r')) (place : Position) :
    r'.Holds t ∧
    (¬ t.HidesMut → ∃ e', TypeExpr.read t.text place = .ok e' ∧
      (convert e').run.run r' = (.ok t, r')) ∧
    (t.HidesMut → ∃ fault, TypeExpr.read t.text place = .error fault) := by
  have hsaid := convert_spoken e (written_of_read hread) hr.consistent
  have hrun : (e.convert converter).run.run r = (.ok t, r') := hconv
  rw [hrun] at hsaid
  obtain ⟨hheld, hspoken⟩ := hsaid.result t rfl
  obtain ⟨hok, herror⟩ := read_text hspoken.written place
  rw [hspoken.text_expr] at hok herror
  refine ⟨hheld, fun hno => ?_, fun hide => herror (hspoken.hidesMut_iff.mpr hide)⟩
  obtain ⟨e', hread', hplain⟩ := hok fun a ha hide => hno (hspoken.hidesMut_iff.mp ⟨a, ha, hide⟩)
  exact ⟨e', hread', hsaid.consistent.convert_expr_run hspoken hheld hplain⟩

/-- `fn(&'a T)` stands for a type with the text `fn(&'a T) -> ()`, which stands for the same type;
`&(mut)` stands for a type with the text `&mut`, which is not read. -/
theorem convert_text_of_convert_instances :
    (∃ r' e', TypeExpr.read "fn(&'a T) -> ()" default = .ok e' ∧
      (convert e').run.run r' = (.ok (.func [.ref (.named "T" []) false (some "a")] .unit), r')) ∧
    ∃ fault, TypeExpr.read "&mut" default = .error fault := by
  have hempty : (empty 0).Reachable := ⟨0, Relation.ReflTransGen.refl⟩
  constructor
  · have htext : (Ty.func [.ref (.named "T" []) false (some "a")] .unit).text =
      "fn(&'a T) -> ()" := by
      decide +kernel
    have hback := (convert_text_of_convert hempty Sample.read_func
      (t := .func [.ref (.named "T" []) false (some "a")] .unit)
      (Prod.ext (by decide +kernel) rfl) default).2.1
    rw [htext] at hback
    refine ⟨_, hback fun hide => ?_⟩
    -- the only reference is to `T`
    cases hide with
    | inside hu hide =>
      rcases List.mem_cons.mp hu with rfl | hu
      · cases hide with
        | here h => exact absurd h (by decide +kernel)
        | inside hu hide =>
          rw [List.mem_singleton.mp hu] at hide
          rcases hide with _ | ⟨hu, _⟩
          cases hu
      · rw [List.mem_singleton.mp hu] at hide
        rcases hide with _ | ⟨hu, _⟩
        cases hu
  · have htext : (Ty.ref (.named "mut" []) false none).text = "&mut" := by decide +kernel
    have hfault :=
      (convert_text_of_convert hempty Sample.read_hidden (t := .ref (.named "mut" []) false none)
      (Prod.ext (by decide +kernel) rfl) default).2.2 (.here (by decide +kernel))
    rwa [htext] at hfault

end Registry

end UnitCheck
