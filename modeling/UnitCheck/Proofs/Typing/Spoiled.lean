import UnitCheck.Proofs.Typing.Assignability

/-!
# Broken parts

The invalid type stands for what is broken, so that one mistake is reported once: it must not bring
about another one. `Spoils` puts it in the place of parts of a type.

* `Same.spoils`, `Widens.spoils` — types that are the same, or that widen each other, still do so.
* `values_after` — what a unifier has found out about types that are not broken are values for the
  spoiled ones, so that these are unified too (`UnifyRun.complete`), although other variables may be
  bound to other types on the way.
-/

namespace UnitCheck

open Relation List

namespace Ty

/-- The second type is the first one with the invalid type in place of some of its parts. -/
inductive Spoils : Ty → Ty → Prop where
  | whole (t : Ty) : Spoils t .invalid
  | parts {t t' : Ty} (label : t.label = t'.label) (lifetime : t.lifetime = t'.lifetime)
      (parts : ∀ p ∈ t.parts.zip t'.parts, Spoils p.1 p.2) : Spoils t t'

namespace Spoils

theorem refl (t : Ty) : Spoils t t := by
  induction t using parts_induction with
  | h t ih =>
    have hparts : List.Forall₂ Spoils t.parts t.parts := forall₂_same.mpr ih
    exact .parts rfl rfl fun p hp => (forall₂_iff_zip.mp hparts).2 hp

theorem cases_shape {t t' : Ty} (h : Spoils t t') :
    t' = .invalid ∨ (t.label = t'.label ∧ List.Forall₂ Spoils t.parts t'.parts) := by
  cases h with
  | whole => exact .inl rfl
  | parts label _ parts =>
    exact .inr ⟨label, forall₂_iff_zip.mpr ⟨length_parts_of_label label, fun hp => parts _ hp⟩⟩

theorem mapVars (f : TypeVar → Ty) {t t' : Ty} (h : Spoils t t') :
    Spoils (t.mapVars f) (t'.mapVars f) := by
  induction h with
  | whole t => exact .whole _
  | @parts t t' label lifetime _ ih =>
    rcases var_or_not_var_of_label label with rfl | ⟨hnv, hnv'⟩
    · exact .refl _
    · refine .parts ?_ ?_ ?_
      · rw [label_mapVars f hnv, label_mapVars f hnv', label]
      · rw [mapVars_eq_rebuild f hnv, mapVars_eq_rebuild f hnv', lifetime_rebuild_self,
          lifetime_rebuild_self, lifetime]
      · rw [parts_mapVars f hnv, parts_mapVars f hnv']
        exact forall_mem_zip_map ih

end Spoils

/-- What two lists of parts have in common they keep when the parts are spoiled. -/
theorem forall₂_spoils {P : Ty → Ty → Prop} {as bs as' bs' : List Ty} (h : List.Forall₂ P as bs)
    (ha : List.Forall₂ Spoils as as') (hb : List.Forall₂ Spoils bs bs')
    (hP : ∀ x ∈ as, ∀ {y x' y'}, P x y → Spoils x x' → Spoils y y' → P x' y') :
    List.Forall₂ P as' bs' := by
  have hleft : List.Forall₂ (fun x' y => ∀ {y'}, Spoils y y' → P x' y') as' bs :=
    Registry.forall₂_trans_of_mem ha.flip h fun x hx _ _ hx' hxy _ hy' => hP x hx hxy hx' hy'
  exact Registry.forall₂_trans_of_mem hleft hb fun _ _ _ _ hy hy' => hy hy'

/-- Types that are the same stay so when parts of them are spoiled. -/
theorem Same.spoils {a b a' b' : Ty} (h : Same a b) (ha : Spoils a a') (hb : Spoils b b') :
    Same a' b' := by
  induction a using parts_induction generalizing b a' b' with
  | h a ih =>
    rcases ha.cases_shape with rfl | ⟨hla, hpa⟩
    · exact .left b'
    rcases hb.cases_shape with rfl | ⟨hlb, hpb⟩
    · exact .right a'
    rcases same_iff.mp h with rfl | rfl | ⟨hlab, hparts⟩
    · rw [eq_basic_of_label hla.symm]
      exact .left b'
    · rw [eq_basic_of_label hlb.symm]
      exact .right a'
    · exact same_iff.mpr (.inr (.inr ⟨hla.symm.trans (hlab.trans hlb),
        forall₂_spoils hparts hpa hpb fun x hx _ _ _ => ih x hx⟩))

/-- A type that widens to another does so when parts of either are spoiled. -/
theorem Widens.spoils {d s d' s' : Ty} (h : Widens d s) (hd : Spoils d d') (hs : Spoils s s') :
    Widens d' s' := by
  induction d using parts_induction generalizing s d' s' with
  | h d ih =>
    rcases hd.cases_shape with rfl | ⟨hld, hpd⟩
    · exact .same (.left s')
    rcases hs.cases_shape with rfl | ⟨hls, hps⟩
    · exact .same (.right d')
    rcases widens_iff.mp h with rfl | rfl | rfl | ⟨hlab, hparts⟩
    · rw [eq_basic_of_label hld.symm]
      exact .same (.left s')
    · rw [eq_basic_of_label hls.symm]
      exact .same (.right d')
    · rw [eq_basic_of_label hls.symm]
      exact .never d'
    refine widens_iff.mpr (.inr (.inr (.inr ?_)))
    rw [← hld, ← hls]
    refine ⟨hlab, forall₂_spoils hparts hpd hps fun x hx {y x' y'} hxy hx' hy' => ?_⟩
    generalize d.label = l at hxy ⊢
    cases l with
    | tuple n => exact ih x hx hxy hx' hy'
    | _ => exact Same.spoils hxy hx' hy'

theorem Spoils.same {t t' : Ty} (h : Spoils t t') : Same t t' := (Same.refl t).spoils (.refl t) h

/-- Without spoiled parts, types that are the same have one size. -/
theorem Same.size_eq {a b : Ty} (ha : a.broken = false) (hb : b.broken = false) (h : Same a b) :
    a.size = b.size := by
  have hall : ∀ {as bs : List Ty}, List.Forall₂ (fun a b : Ty => a.size = b.size) as bs →
      sizeAll as = sizeAll bs := by
    intro as bs h
    induction h with
    | nil => rfl
    | cons hab _ ih => rw [sizeAll, sizeAll, hab, ih]
  induction a using parts_induction generalizing b with
  | h a ih =>
    rcases same_iff.mp h with hinv | hinv | ⟨_, hparts⟩
    · exact absurd hinv (ne_invalid_of_sound ha)
    · exact absurd hinv (ne_invalid_of_sound hb)
    · rw [size_eq_parts, size_eq_parts, hall (Registry.forall₂_imp_of_mem hparts
        fun x hx y hy => ih x hx (broken_of_part ha hx) (broken_of_part hb hy))]

end Ty

open Ty

namespace Registry

section

variable {r r' : Registry} {t : Ty}

/-- A type that is not broken and, up to lifetimes and broken parts, what a type stands for. -/
def Stands (r : Registry) (t u : Ty) : Prop := Sound u ∧ Same (r.applied t) u

/-- What types stand for in the end goes with the bindings on the way, if nothing is broken then. -/
theorem values_after (h' : r'.Consistent) (hc : r'.Closed Sound) (he : r.Extends r') :
    Values r'.Stands r := by
  refine ⟨fun {v u w} hv hu hw => ?_, fun {t u} hnv hne hu => ?_, fun {v u} hv hr hu => ?_,
    fun {v t u} hv hb hu => ?_⟩
  · have hsv := h'.sound_applied hc (he.holds hv) (rfl : (var v).broken = false)
    have huw := hu.2.symm.trans hsv hw.2
    exact ⟨huw.size_eq hu.1 hw.1, fun ht => ⟨hw.1, ht.2.trans hu.1 huw⟩⟩
  · rcases same_iff.mp hu.2 with hinv | hinv | ⟨hlab, hparts⟩
    · have hlab := label_applied r' hnv
      rw [hinv] at hlab
      exact absurd (eq_basic_of_label hlab.symm) hne
    · exact absurd hinv (ne_invalid_of_sound hu.1)
    · rw [label_applied r' hnv] at hlab
      rw [parts_applied r' hnv, forall₂_map_left_iff] at hparts
      exact ⟨hlab, forall₂_imp_of_mem hparts fun x _ y hy hxy => ⟨broken_of_part hu.1 hy, hxy⟩⟩
  · have hsame := hu.2
    rw [applied_free (h'.binding?_of_rigid (he.holds hv) hr), same_iff] at hsame
    rcases hsame with hinv | hinv | ⟨hlab, _⟩
    · cases hinv
    · exact absurd hinv (ne_invalid_of_sound hu.1)
    · exact eq_var_of_label hlab.symm
  · rwa [Stands, h'.applied_bound (he.binding hb)] at hu

end

/-- **Broken parts cause no mismatch.** Put the invalid type in place of parts of two types: if they
were identical, they still are; if the second could be assigned to the first one, it still can; and
if nothing was broken before and they were unified, they still are. -/
theorem spoiled_types_still_match {r : Registry} (h : r.Reachable) {a b a' b' : Ty}
    (ha : r.Holds a) (hb : r.Holds b) (ha' : r.Holds a') (hb' : r.Holds b')
    (hna : a.broken = false) (hnb : b.broken = false)
    (hnr : ∀ v t, r.binding? v = some t → t.broken = false) (hsa : Spoils a a')
    (hsb : Spoils b b') :
    (r.identical a b = true → r.identical a' b' = true) ∧
    (((assignable a b).run r).1 = true → ((assignable a' b').run r).1 = true) ∧
    ((∃ t, ((unify a b).run.run r).1 = .ok t) → ∃ t, ((unify a' b').run.run r).1 = .ok t) := by
  have hc := h.consistent
  refine ⟨fun hid => ?_, fun has => ?_, fun ⟨t, hok⟩ => ?_⟩
  · rw [hc.identical_iff_same ha hb] at hid
    exact (hc.identical_iff_same ha' hb').mpr (hid.spoils (hsa.mapVars _) (hsb.mapVars _))
  · rw [hc.assignable_iff ha hb] at has
    exact (hc.assignable_iff ha' hb').mpr (has.spoils (hsa.mapVars _) (hsb.mapVars _))
  · have run := unify_runs hc ha hb
    have hready : Ready r [a] [b] := .pair hc ha hb
    have hkept := run.preserves hready
    have hclosed := (run.bindsOnly hready (closed_sound hnr) (List.forall_mem_singleton.mpr hna)
      (List.forall_mem_singleton.mpr hnb)).closed
    have hgives : ((unify a b).run.run r).1.map ([·]) = .ok [t] := by rw [hok]; rfl
    have hmet := (List.forall₂_cons.mp (run.sound hready hgives).operands).1
    generalize ((unify a b).run.run r).2 = r₁ at *
    have h₁ := hkept.consistent
    have hHa := hkept.extends_.holds ha
    have hHb := hkept.extends_.holds hb
    rw [h₁.identical_iff_same hHa hHb] at hmet
    -- what the first operand stands for is a value of both spoiled operands
    have hua : Sound (r₁.applied a) := h₁.sound_applied hclosed hHa hna
    have hub : Sound (r₁.applied b) := h₁.sound_applied hclosed hHb hnb
    have hval : Common r₁.Stands a' b' :=
      ⟨r₁.applied a, ⟨hua, (hsa.mapVars _).same.symm⟩, hua,
        (hsb.mapVars _).same.symm.trans hub hmet.symm⟩
    obtain ⟨⟨us, hus⟩, _⟩ := (unify_runs hc ha' hb').complete (.pair hc ha' hb')
      (values_after h₁ hclosed hkept.extends_) (.cons hval .nil)
    obtain ⟨u, hu, _⟩ := map_singleton_eq_ok hus
    exact ⟨u, hu⟩

namespace Spoiling

/-! A variable `a` and the tuples `(a, a)`, `([int], [int])` and `([error], [int])`. -/

def pair : Ty := .tuple [.var Sample.a, .var Sample.a]

def whole : Ty := .tuple [.array .int none, .array .int none]

def spoiled : Ty := .tuple [.array .invalid none, .array .int none]

def registry : Registry :=
  performAll [.newVar "a" false, .register pair, .register whole, .register spoiled] (empty 0)

theorem reachable : registry.Reachable := ⟨0, later_performAll (by decide +kernel)⟩

end Spoiling

/-- `(a, a)` and `([error], [int])` are unified: `a` is bound to `[error]`, which then meets
`[int]`. -/
theorem spoiled_types_still_match_bound : Spoils Spoiling.whole Spoiling.spoiled ∧
      ∃ t, ((unify Spoiling.pair Spoiling.spoiled).run.run Spoiling.registry).1 = .ok t := by
  have hspoils : Spoils Spoiling.whole Spoiling.spoiled := by
    refine .parts rfl rfl fun p hp => ?_
    rcases List.mem_cons.mp hp with rfl | hp
    · exact .parts rfl rfl fun q hq => List.mem_singleton.mp hq ▸ .whole .int
    · exact List.mem_singleton.mp hp ▸ .refl _
  refine ⟨hspoils, ?_⟩
  have hunbound : ∀ v t, Spoiling.registry.binding? v = some t → t.broken = false := by
    have hempty : Spoiling.registry.bindings = [] := by decide +kernel
    intro v t hb
    rw [binding?, hempty] at hb
    cases hb
  have hok : ((unify Spoiling.pair Spoiling.whole).run.run Spoiling.registry).1.isOk = true := by
    decide +kernel
  refine (spoiled_types_still_match Spoiling.reachable (by decide +kernel) (by decide +kernel)
    (by decide +kernel) (by decide +kernel) (by decide +kernel) (by decide +kernel) hunbound
    (.refl Spoiling.pair) hspoils).2.2 ?_
  cases hout : ((unify Spoiling.pair Spoiling.whole).run.run Spoiling.registry).1 with
  | ok t => exact ⟨t, rfl⟩
  | error e =>
    rw [hout] at hok
    cases hok

end Registry

end UnitCheck
