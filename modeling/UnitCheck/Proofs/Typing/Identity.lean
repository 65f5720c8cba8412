import UnitCheck.Proofs.Typing.Unification

/-!
# Identity of types

Two types are compared level by level: their heads have one label, and their parts are compared in
turn. The bound on the number of levels plays no part on registered types, which gives the equation
`identical_eq`, and from it:

* `identical_iff` — when two registered types are identical, in terms of their parts.
* `Consistent.identical_iff_same` — it depends on what they stand for alone: `Ty.Same` says it of
  types without a registry. Sameness is kept when variables are replaced.
* `Consistent.identical_mono` — types that are identical stay identical, whatever is bound later.
* `UnifyRun.sound` — what has been unified is identical.
* `UnifyRun.of_identical` — what is identical is unified without binding anything.
-/

namespace UnitCheck

open Ty Relation List

variable {as bs us : List Ty} {a b t u : Ty} {r r' r₂ : Registry}

namespace Ty

/-! ## Types without a registry -/

/-- Equality of types except for lifetimes; the invalid type equals anything. -/
inductive Same : Ty → Ty → Prop where
  | left (t : Ty) : Same .invalid t
  | right (t : Ty) : Same t .invalid
  | parts {a b : Ty} (label : a.label = b.label)
    (parts : ∀ p ∈ a.parts.zip b.parts, Same p.1 p.2) : Same a b

theorem same_iff : Same a b ↔ a = .invalid ∨ b = .invalid ∨
      (a.label = b.label ∧ List.Forall₂ Same a.parts b.parts) := by
  constructor
  · intro h
    cases h with
    | left => exact .inl rfl
    | right => exact .inr (.inl rfl)
    | parts label parts =>
      refine .inr (.inr ⟨label, forall₂_iff_zip.mpr ⟨length_parts_of_label label, ?_⟩⟩)
      exact fun hm => parts _ hm
  · rintro (rfl | rfl | ⟨hlab, hparts⟩)
    · exact .left b
    · exact .right a
    · exact .parts hlab fun p hp => (forall₂_iff_zip.mp hparts).2 hp

theorem Same.refl (t : Ty) : Same t t := by
  induction t using induction_on_parts with
  | var v => exact .parts rfl fun p hp => by simp [Ty.parts] at hp
  | node t _ ih =>
    rw [same_iff]
    exact .inr (.inr ⟨rfl, forall₂_same.mpr ih⟩)

theorem forall_mem_zip_map {f : Ty → Ty} {R : Ty → Ty → Prop}
    (h : ∀ p ∈ as.zip bs, R (f p.1) (f p.2)) :
    ∀ p ∈ (as.map f).zip (bs.map f), R p.1 p.2 := by
  intro p hp
  rw [zip_map] at hp
  obtain ⟨q, hq, rfl⟩ := List.mem_map.mp hp
  exact h q hq

/-- Types that are the same stay so when variables are replaced. -/
theorem Same.mapVars (f : TypeVar → Ty) (h : Same a b) : Same (a.mapVars f) (b.mapVars f) := by
  induction h with
  | left t => exact .left _
  | right t => exact .right _
  | @parts a b label _ ih =>
    rcases var_or_not_var_of_label label with rfl | ⟨hnva, hnvb⟩
    · exact .refl _
    · refine .parts ?_ ?_
      · rw [label_mapVars f hnva, label_mapVars f hnvb, label]
      · rw [parts_mapVars f hnva, parts_mapVars f hnvb]
        exact forall_mem_zip_map ih

end Ty

namespace Registry

/-! ## One level -/

/-- One level of the comparison, with the comparison of the parts. -/
def identicalHeads (part : Ty → Ty → Bool) (a b : Ty) : Bool :=
  a == b || a.isInvalid || b.isInvalid || (a.label == b.label && identicalAll part a.parts b.parts)

theorem identicalAll_iff (part : Ty → Ty → Bool) (as bs : List Ty) :
    identicalAll part as bs = true ↔ List.Forall₂ (fun a b => part a b = true) as bs := by
  induction as generalizing bs with
  | nil => cases bs <;> simp [identicalAll]
  | cons a as ih => cases bs <;> simp [identicalAll, ih]

theorem forall₂_imp_of_mem {R S : Ty → Ty → Prop} (h : List.Forall₂ R as bs)
    (hi : ∀ a ∈ as, ∀ b ∈ bs, R a b → S a b) : List.Forall₂ S as bs := by
  rw [forall₂_iff_zip] at h ⊢
  exact ⟨h.1, fun hm => hi _ (of_mem_zip hm).1 _ (of_mem_zip hm).2 (h.2 hm)⟩

theorem forall₂_iff_of_mem {R S : Ty → Ty → Prop} (hi : ∀ a ∈ as, ∀ b ∈ bs, (R a b ↔ S a b)) :
    List.Forall₂ R as bs ↔ List.Forall₂ S as bs :=
  ⟨fun h => forall₂_imp_of_mem h fun a ha b hb => (hi a ha b hb).mp,
    fun h => forall₂_imp_of_mem h fun a ha b hb => (hi a ha b hb).mpr⟩

theorem forall₂_trans_of_mem {R S T : Ty → Ty → Prop} {cs : List Ty} (h : List.Forall₂ R as bs)
    (h' : List.Forall₂ S bs cs) (ht : ∀ b ∈ bs, ∀ {a c}, R a b → S b c → T a c) :
    List.Forall₂ T as cs := by
  induction h generalizing cs with
  | nil =>
    cases h'
    exact .nil
  | cons hab _ ih =>
    cases h' with
    | cons hbc hrest =>
      exact .cons (ht _ mem_cons_self hab hbc) (ih hrest fun b hb => ht b (mem_cons_of_mem _ hb))

theorem identicalAll_congr {f g : Ty → Ty → Bool} (h : ∀ a ∈ as, ∀ b ∈ bs, f a b = g a b) :
    identicalAll f as bs = identicalAll g as bs := by
  induction as generalizing bs with
  | nil => cases bs <;> rfl
  | cons a as ih =>
    cases bs with
    | nil => rfl
    | cons b bs =>
      rw [identicalAll, identicalAll, h a mem_cons_self b mem_cons_self,
        ih fun x hx y hy => h x (mem_cons_of_mem a hx) y (mem_cons_of_mem b hy)]

theorem identicalAll_concat (part : Ty → Ty → Bool) (x y : Ty) {xs ys : List Ty}
    (h : xs.length = ys.length) :
    identicalAll part (xs ++ [x]) (ys ++ [y]) = (identicalAll part xs ys && part x y) := by
  induction xs generalizing ys with
  | nil =>
    obtain rfl : ys = [] := length_eq_zero_iff.mp h.symm
    simp [identicalAll]
  | cons a as ih =>
    cases ys with
    | nil => cases h
    | cons b bs => simp [identicalAll, ih (Nat.succ.inj h), Bool.and_assoc]

theorem identicalAll_of_length_ne (part : Ty → Ty → Bool) (h : as.length ≠ bs.length) :
    identicalAll part as bs = false := by
  rw [← Bool.not_eq_true, identicalAll_iff]
  exact fun hall => h hall.length_eq

/-- A comparison with one step more looks at the heads and leaves their parts to the steps that are
left. -/
theorem identicalWithin_succ (r : Registry) (n : Nat) (a b : Ty) : r.identicalWithin (n + 1) a b =
      identicalHeads (r.identicalWithin n) (r.head a) (r.head b) := by
  rw [identicalWithin, identicalHeads]
  generalize r.head a = a, r.head b = b
  -- equal heads are identical at once, so the labels of variables and basic types differ below
  by_cases heq : a = b
  · simp [heq]
  congr 1
  rw [Bool.eq_iff_iff]
  cases a with
  | basic x =>
    have hlab : (basic x).label ≠ b.label := fun h => heq (eq_basic_of_label h.symm).symm
    simp [hlab]
  | var v =>
    have hlab : (var v).label ≠ b.label := fun h => heq (eq_var_of_label h.symm).symm
    simp [hlab]
  | array x m => cases b <;> simp [label, parts, identicalAll]
  | ref x m l => cases b <;> simp [label, parts, identicalAll]
  | tuple xs =>
    cases b with
    | tuple ys =>
      by_cases hlen : xs.length = ys.length
      · simp [label, parts, hlen]
      · simp [identicalAll_of_length_ne _ hlen, parts]
    | _ => simp [label]
  | named x xs =>
    cases b with
    | named y ys =>
      by_cases hlen : xs.length = ys.length
      · simp [label, parts, hlen]
      · simp [identicalAll_of_length_ne _ hlen, parts]
    | _ => simp [label]
  | func xs x =>
    cases b with
    | func ys y =>
      by_cases hlen : xs.length = ys.length
      · simp [label, parts, hlen, identicalAll_concat]
      · have hne : (xs ++ [x]).length ≠ (ys ++ [y]).length := by simpa using hlen
        simp [identicalAll_of_length_ne _ hlen, identicalAll_of_length_ne _ hne, parts]
    | _ => simp [label]

theorem identicalHeads_iff (part : Ty → Ty → Bool) (a b : Ty) :
    identicalHeads part a b = true ↔ a = b ∨ a = .invalid ∨ b = .invalid ∨
      (a.label = b.label ∧ List.Forall₂ (fun x y => part x y = true) a.parts b.parts) := by
  simp [identicalHeads, isInvalid, identicalAll_iff, or_assoc]

/-! ## Without the bound -/

/-- A bound that covers the left type is never what ends the comparison. -/
theorem Consistent.identicalWithin_stable (h : r.Consistent) {n : Nat} (ha : r.Holds a)
    (hb : r.Holds b)
    (hn : Covers r r n a) : r.identicalWithin (n + 1) a b = r.identicalWithin n a b := by
  have hw : Within r r := Within.start h
  induction n generalizing a b with
  | zero => exact absurd hn (hw.not_covers_zero ha)
  | succ n ih =>
    rw [identicalWithin_succ, identicalWithin_succ, identicalHeads, identicalHeads]
    congr 2
    refine identicalAll_congr fun x hx y hy => ?_
    have hcover := hw.covers_below ha hn (TransGen.tail' (h.reach_head ha) (.part hx))
    exact ih (h.holds_part (h.holds_head ha) hx) (h.holds_part (h.holds_head hb) hy) hcover

/-- **Identity without a bound.** -/
theorem Consistent.identical_eq (h : r.Consistent) (ha : r.Holds a) (hb : r.Holds b) :
    r.identical a b = identicalHeads r.identical (r.head a) (r.head b) := by
  rw [identical, depth, identicalWithin_succ, identicalHeads, identicalHeads]
  congr 2
  refine identicalAll_congr fun x hx y hy => ?_
  exact (h.identicalWithin_stable (h.holds_part (h.holds_head ha) hx)
    (h.holds_part (h.holds_head hb) hy) (covers_size r r x)).symm

theorem Consistent.identical_iff (h : r.Consistent) (ha : r.Holds a) (hb : r.Holds b) :
    r.identical a b = true ↔ r.head a = r.head b ∨ r.head a = .invalid ∨ r.head b = .invalid ∨
        ((r.head a).label = (r.head b).label ∧
          List.Forall₂ (fun x y => r.identical x y = true) (r.head a).parts (r.head b).parts) := by
  rw [h.identical_eq ha hb, identicalHeads_iff]

/-! ## What types stand for -/

/-- A head that is no variable stays the head. -/
theorem Consistent.head_later (h : r.Consistent) (h' : r'.Consistent) (he : r.Extends r')
    (ht : r.Holds t) (hnv : ∀ v, r.head t ≠ .var v) : r'.head t = r.head t := by
  rw [← h.head_head h' he ht, head_of_not_var r' hnv]

/-- What a type stands for has the label of its head, -/
theorem Consistent.label_applied_head (h : r.Consistent) (ht : r.Holds t) :
    (r.applied t).label = (r.head t).label := by
  rw [← h.applied_head ht]
  by_cases hvar : ∃ v, r.head t = .var v
  · obtain ⟨v, hv⟩ := hvar
    rw [hv, applied_free (h.head_unbound ht hv)]
  · exact label_applied r fun v hv => hvar ⟨v, hv⟩

/-- and for its parts what the parts of the head stand for. -/
theorem Consistent.parts_applied_head (h : r.Consistent) (ht : r.Holds t) :
    (r.applied t).parts = (r.head t).parts.map r.applied := by
  rw [← h.applied_head ht]
  by_cases hvar : ∃ v, r.head t = .var v
  · obtain ⟨v, hv⟩ := hvar
    rw [hv, applied_free (h.head_unbound ht hv)]
    rfl
  · exact parts_applied r fun v hv => hvar ⟨v, hv⟩

/-- A type that its label tells is what another one stands for exactly if it is the head of that. -/
theorem Consistent.applied_eq_iff_head (h : r.Consistent) (ht : r.Holds t)
    (hu : ∀ {x : Ty}, x.label = u.label → x = u) : r.applied t = u ↔ r.head t = u := by
  have hlab := h.label_applied_head ht
  exact ⟨fun heq => hu (by rw [← hlab, heq]), fun heq => hu (by rw [hlab, heq])⟩

theorem Consistent.applied_eq_invalid_iff (h : r.Consistent) (ht : r.Holds t) :
    r.applied t = .invalid ↔ r.head t = .invalid :=
  h.applied_eq_iff_head ht eq_basic_of_label

theorem Consistent.applied_eq_var_iff (h : r.Consistent) (ht : r.Holds t) {v : TypeVar} :
    r.applied t = .var v ↔ r.head t = .var v :=
  h.applied_eq_iff_head ht eq_var_of_label

theorem Consistent.same_applied_iff (h : r.Consistent) (ha : r.Holds a) (hb : r.Holds b) :
    Same (r.applied a) (r.applied b) ↔ r.head a = .invalid ∨ r.head b = .invalid ∨
      ((r.head a).label = (r.head b).label ∧
        List.Forall₂ (fun x y => Same (r.applied x) (r.applied y))
          (r.head a).parts (r.head b).parts) := by
  rw [same_iff, h.applied_eq_invalid_iff ha, h.applied_eq_invalid_iff hb, h.label_applied_head ha,
    h.label_applied_head hb, h.parts_applied_head ha, h.parts_applied_head hb, forall₂_map_left_iff,
    forall₂_map_right_iff]

/-- **Identity** is sameness of what two types stand for. -/
theorem Consistent.identical_iff_same (h : r.Consistent) (ha : r.Holds a) (hb : r.Holds b) :
    r.identical a b = true ↔ Same (r.applied a) (r.applied b) := by
  -- one level, given the parts of the left head
  have hlevel : ∀ {a b}, r.Holds a → r.Holds b → (∀ x ∈ (r.head a).parts, ∀ {y}, r.Holds y →
      (r.identical x y = true ↔ Same (r.applied x) (r.applied y))) →
      (r.identical a b = true ↔ Same (r.applied a) (r.applied b)) := by
    intro a b ha hb hx
    rw [h.identical_iff ha hb, forall₂_iff_of_mem fun x hmx y hmy =>
      hx x hmx (h.holds_part (h.holds_head hb) hmy), ← h.same_applied_iff ha hb,
      or_iff_right_of_imp]
    intro heq
    rw [← h.applied_head ha, heq, h.applied_head hb]
    exact .refl _
  refine hlevel ha hb ?_
  clear hb
  induction a, ha using h.walk_induction with
  | free v _ hbv =>
    rw [head_free hbv]
    intro x hx
    simp [Ty.parts] at hx
  | bound v c _ hbv ih =>
    rw [h.head_bound hbv]
    exact ih
  | node a ha hnv ih =>
    rw [head_of_not_var r hnv]
    intro x hx y hy
    exact hlevel (h.holds_part ha hx) hy (ih x hx)

theorem Consistent.identical_mono (h : r.Consistent) (h' : r'.Consistent)
    (he : r.Extends r') (ha : r.Holds a) (hb : r.Holds b) (hid : r.identical a b = true) :
    r'.identical a b = true := by
  rw [h.identical_iff_same ha hb] at hid
  rw [h'.identical_iff_same (he.holds ha) (he.holds hb), h.applied_mono h' he ha,
    h.applied_mono h' he hb]
  exact hid.mapVars _

/-! ## What a run has unified -/

/-- The operands of a run and its results are identical, pair by pair. -/
structure Agree (r : Registry) (us as bs : List Ty) : Prop where
  operands : List.Forall₂ (fun a b => r.identical a b = true) as bs
  left : List.Forall₂ (fun u a => r.identical u a = true) us as
  right : List.Forall₂ (fun u b => r.identical u b = true) us bs

theorem Agree.cons (hab : r.identical a b = true) (hua : r.identical u a = true)
    (hub : r.identical u b = true) (h : Agree r us as bs) : Agree r (u :: us) (a :: as) (b :: bs) :=
  ⟨.cons hab h.operands, .cons hua h.left, .cons hub h.right⟩

/-- What has been settled at two heads stays so: the heads meet, or one is invalid. -/
theorem Settles.heads {r₁ : Registry}
    (hs : Settles r a b (.ok u) r₁) (h₂ : r₂.Consistent) (he : r₁.Extends r₂) :
    (r₂.head u = r₂.head a ∧ r₂.head a = r₂.head b) ∨
      (r₂.head u = .invalid ∧ (r₂.head a = .invalid ∨ r₂.head b = .invalid)) := by
  have hinv : r₂.head .invalid = .invalid := head_of_not_var r₂ (by simp)
  cases hs with
  | same => exact .inl ⟨rfl, rfl⟩
  | broken _ hbad =>
    rcases hbad with rfl | rfl
    · exact .inr ⟨hinv, .inl hinv⟩
    · exact .inr ⟨hinv, .inr hinv⟩
  | bound v t _ _ _ ht _ =>
    have hb : r₂.head (.var v) = r₂.head u :=
      h₂.head_bound (he.binding (assign_binding?_of_id_eq rfl))
    rcases (target?_cases ht).2 with ⟨rfl, rfl⟩ | ⟨rfl, rfl⟩
    · exact .inl ⟨hb.symm, hb⟩
    · exact .inl ⟨rfl, hb.symm⟩

/-- What settled heads come to agrees with both of them, and goes on to do so in later
registries. -/
theorem Ready.settles_agree {r₁ : Registry} (h : Ready r (a :: as) (b :: bs))
    (hs : Settles r (r.head a) (r.head b) (.ok u) r₁) (h₂ : r₂.Consistent) (he : r₁.Extends r₂)
    (hrest : Agree r₂ us as bs) : Agree r₂ (u :: us) (a :: as) (b :: bs) := by
  obtain ⟨_, he₁, hu⟩ := h.settles hs
  have hHa := (he₁.trans he).holds h.holds_left
  have hHb := (he₁.trans he).holds h.holds_right
  have hHu := he.holds (hu u rfl)
  have hheads := hs.heads h₂ he
  rw [h.consistent.head_head h₂ (he₁.trans he) h.holds_left,
    h.consistent.head_head h₂ (he₁.trans he) h.holds_right] at hheads
  rcases hheads with ⟨hua, hab⟩ | ⟨hui, hbad⟩
  · exact hrest.cons ((h₂.identical_iff hHa hHb).mpr (.inl hab))
      ((h₂.identical_iff hHu hHa).mpr (.inl hua))
      ((h₂.identical_iff hHu hHb).mpr (.inl (hua.trans hab)))
  · refine hrest.cons ((h₂.identical_iff hHa hHb).mpr ?_)
      ((h₂.identical_iff hHu hHa).mpr (.inr (.inl hui)))
      ((h₂.identical_iff hHu hHb).mpr (.inr (.inl hui)))
    rcases hbad with hbad | hbad
    · exact .inr (.inl hbad)
    · exact .inr (.inr (.inl hbad))

theorem Agree.mono (hag : Agree r us as bs) (h : Ready r as bs)
    (hus : ∀ u ∈ us, r.Holds u) (h' : r'.Consistent) (he : r.Extends r') : Agree r' us as bs := by
  refine ⟨forall₂_imp_of_mem hag.operands ?_, forall₂_imp_of_mem hag.left ?_,
    forall₂_imp_of_mem hag.right ?_⟩
  · exact fun a ha b hb => h.consistent.identical_mono h' he (h.left a ha) (h.right b hb)
  · exact fun u hu a ha => h.consistent.identical_mono h' he (hus u hu) (h.left a ha)
  · exact fun u hu b hb => h.consistent.identical_mono h' he (hus u hu) (h.right b hb)

/-- Types whose parts have been unified are identical. -/
theorem Ready.parts_agree {vs : List Ty}
    (h : Ready r (a :: as) (b :: bs)) (hd : Decomposes (r.head a) (r.head b))
    (hlen : vs.length = (r.head a).parts.length) (h₂ : r₂.Consistent) (he : r.Extends r₂)
    (hu : r₂.Holds (joined (r.head a) (r.head b) vs))
    (hinner : Agree r₂ vs (r.head a).parts (r.head b).parts) (hrest : Agree r₂ us as bs) :
    Agree r₂ (joined (r.head a) (r.head b) vs :: us) (a :: as) (b :: bs) := by
  have hHa := he.holds h.holds_left
  have hHb := he.holds h.holds_right
  obtain ⟨hnva, hnvb⟩ := hd.not_var
  have hcomp := hd.joined_compound h.consistent.toInterned h.holds_head_left hlen
  have hheadA := h.consistent.head_later h₂ he h.holds_left hnva
  have hheadB := h.consistent.head_later h₂ he h.holds_right hnvb
  have hheadU : r₂.head (joined (r.head a) (r.head b) vs) = joined (r.head a) (r.head b) vs :=
    head_of_not_var r₂ hcomp.2.1
  have hlabel : (joined (r.head a) (r.head b) vs).label = (r.head a).label := label_rebuild hlen
  have hparts : (joined (r.head a) (r.head b) vs).parts = vs := parts_rebuild hlen
  refine hrest.cons ?_ ?_ ?_
  · rw [h₂.identical_iff hHa hHb, hheadA, hheadB]
    exact .inr (.inr (.inr ⟨hd.label, hinner.operands⟩))
  · rw [h₂.identical_iff hu hHa, hheadU, hheadA, hlabel, hparts]
    exact .inr (.inr (.inr ⟨rfl, hinner.left⟩))
  · rw [h₂.identical_iff hu hHb, hheadU, hheadB, hlabel, hparts]
    exact .inr (.inr (.inr ⟨hd.label, hinner.right⟩))

/-- **Soundness.** What a run has unified is identical afterwards, and so are its results. -/
theorem UnifyRun.sound {out : Except UnifyFault (List Ty)} (run : UnifyRun r as bs out r')
    (h : Ready r as bs) (hout : out = .ok us) : Agree r' us as bs := by
  revert us
  refine UnifyRun.induction_on (P := fun r as bs out r' => ∀ {us}, out = .ok us →
    Agree r' us as bs) ?nil ?settled ?failed ?parts ?partsFailed run h
  case nil =>
    rintro r _ us ⟨⟩
    exact ⟨.nil, .nil, .nil⟩
  case settled =>
    intro r r₁ r₂ a b u as bs out h hs hready rest ih us hus
    obtain ⟨us', hout, rfl⟩ := map_cons_eq_ok hus
    have hkept := rest.preserves hready
    exact h.settles_agree hs hkept.consistent hkept.extends_ (ih hout)
  case failed => exact fun _ _ _ hus => (by cases hus)
  case parts =>
    intro r r₁ r₂ a b as bs vs out h hd inner ihInner hadd hready rest ihRest us hus
    obtain ⟨us', hout, rfl⟩ := map_cons_eq_ok hus
    have hin := inner.preserves h.parts
    have hrest := rest.preserves hready
    -- what the parts have in common they keep while the rest of the list is unified
    have he := hadd.grows.extends.trans hrest.extends_
    have hinner :=
      (ihInner rfl).mono ⟨hin.consistent, fun x hx => hin.extends_.holds (h.parts.left x hx),
        fun x hx => hin.extends_.holds (h.parts.right x hx)⟩ (hin.holds vs rfl) hrest.consistent he
    exact h.parts_agree hd (hin.length vs rfl) hrest.consistent (hin.extends_.trans he)
      (hrest.extends_.holds (holds_add _ _)) hinner (ihRest hout)
  case partsFailed => exact fun _ _ _ _ _ hus => (by cases hus)

/-! ## Identical types -/

section

variable {r' : Registry} {out : Except UnifyFault (List Ty)}

theorem Ready.parts_identical (h : Ready r (a :: as) (b :: bs))
    (hd : Decomposes (r.head a) (r.head b)) (hid : r.identical a b = true) :
    List.Forall₂ (fun x y => r.identical x y = true) (r.head a).parts (r.head b).parts := by
  rw [h.consistent.identical_iff h.holds_left h.holds_right] at hid
  exact (((hid.resolve_left hd.ne).resolve_left hd.left_ne).resolve_left hd.right_ne).2

/-- Heads of identical types that are not equal have one label, and so are no variables. -/
theorem Ready.settles_identical {out : Except UnifyFault Ty} (h : Ready r (a :: as) (b :: bs))
    (hs : Settles r (r.head a) (r.head b) out r') (hid : r.identical a b = true) :
    r.Grows r' ∧ ∃ u, out = .ok u := by
  rw [h.consistent.identical_iff h.holds_left h.holds_right] at hid
  generalize r.head a = A, r.head b = B at *
  have hlab : A ≠ B → A ≠ .invalid → B ≠ .invalid → A.label = B.label :=
    fun hne hna hnb => (((hid.resolve_left hne).resolve_left hna).resolve_left hnb).1
  have htarget : ∀ {v t}, A ≠ B → A ≠ .invalid → B ≠ .invalid → target? A B ≠ some (v, t) := by
    intro v t hne hna hnb ht
    have hlab := hlab hne hna hnb
    rcases (target?_cases ht).2 with ⟨rfl, _⟩ | ⟨rfl, _⟩
    · exact hne (eq_var_of_label hlab.symm).symm
    · exact hne (eq_var_of_label hlab)
  cases hs with
  | same => exact ⟨Grows.refl r, _, rfl⟩
  | broken => exact ⟨Grows.refl r, _, rfl⟩
  | bound v t hne hna hnb ht _ => exact absurd ht (htarget hne hna hnb)
  | recursive v t hne hna hnb ht _ _ => exact absurd ht (htarget hne hna hnb)
  | clash hne hna hnb _ hno _ => exact absurd (hlab hne hna hnb) hno

theorem Ready.tail_identical (h : Ready r (a :: as) (b :: bs)) (h' : r'.Consistent)
    (he : r.Extends r')
    (hid : List.Forall₂ (fun a b => r.identical a b = true) (a :: as) (b :: bs)) :
    List.Forall₂ (fun a b => r'.identical a b = true) as bs :=
  forall₂_imp_of_mem (forall₂_cons.mp hid).2 fun x hx y hy =>
    h.consistent.identical_mono h' he (h.left x (mem_cons_of_mem _ hx))
      (h.right y (mem_cons_of_mem _ hy))

/-- **Identical types** are unified without binding anything. -/
theorem UnifyRun.of_identical (run : UnifyRun r as bs out r') (h : Ready r as bs) :
    List.Forall₂ (fun a b => r.identical a b = true) as bs → r.Grows r' ∧ ∃ us, out = .ok us := by
  refine UnifyRun.induction_on (P := fun r as bs out r' =>
      List.Forall₂ (fun a b => r.identical a b = true) as bs → r.Grows r' ∧ ∃ us, out = .ok us)
    ?nil ?settled ?failed ?parts ?partsFailed run h
  case nil => exact fun r _ _ => ⟨Grows.refl r, [], rfl⟩
  case settled =>
    intro r r₁ r₂ a b u as bs out h hs hready rest ih hid
    obtain ⟨hg, _⟩ := h.settles_identical hs (forall₂_cons.mp hid).1
    obtain ⟨hg₂, us, rfl⟩ := ih (h.tail_identical hready.consistent hg.extends hid)
    exact ⟨hg.trans hg₂, u :: us, rfl⟩
  case failed =>
    intro r r₁ a b as bs e h hs hid
    obtain ⟨_, u, hu⟩ := h.settles_identical hs (forall₂_cons.mp hid).1
    cases hu
  case parts =>
    intro r r₁ r₂ a b as bs us out h hd inner ihInner hadd hready rest ihRest hid
    obtain ⟨hg, _⟩ := ihInner (h.parts_identical hd (forall₂_cons.mp hid).1)
    have hg₁ := hg.trans hadd.grows
    obtain ⟨hg₂, vs, rfl⟩ := ihRest (h.tail_identical hready.consistent hg₁.extends hid)
    exact ⟨hg₁.trans hg₂, _ :: vs, rfl⟩
  case partsFailed =>
    intro r r₁ a b as bs e h hd _ ihInner hid
    obtain ⟨_, us, hus⟩ := ihInner (h.parts_identical hd (forall₂_cons.mp hid).1)
    cases hus

end

end Registry

end UnitCheck
