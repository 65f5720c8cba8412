import UnitCheck.Proofs.Analysis.Check
import UnitCheck.Proofs.Typing.Instances

/-!
# Literals of structures

`Accepts types s inits s'` — from `s` to `s'`, the values of a literal are taken over one after the
other, and each fits the type of its field. A literal whose values have no faults of their own is
right just in case each field is given once and the values are accepted (`structLiteral_exact`).
-/

namespace UnitCheck.Checking

open List Option

variable {y : Symbol} {types : List (String × Ty)} {done : List String} {s s' : Store} {type : Ty}
  {inits : List (Label × Operand)} {n : String}

/-- The names that values are given to. -/
def given (inits : List (Label × Operand)) : List String := inits.map (·.1.text)

/-- The values, each in the store that those before it lead to, have no faults. -/
def ValuesCheck (y : Symbol) (types : List (String × Ty)) (done : List String) (s : Store)
    (inits : List (Label × Operand)) : Prop :=
  ∀ front p back, inits = front ++ p :: back →
    (p.2.take.run ((checkInits y types done front).run s).2).1.faults = []

inductive Accepts (types : List (String × Ty)) : Store → List (Label × Operand) → Store → Prop where
  | nil (s : Store) : Accepts types s [] s
  | cons {s s₁ s₂ s₃ : Store} {label : Label} {value : Operand} {t : Typed} {type : Ty}
      {rest : List (Label × Operand)} (taken : value.take.run s = (t, s₁)) (clean : t.faults = [])
      (field : types.lookup label.text = some type)
      (fits : (expect type t.type value.pos ("field " ++ Text.quoted label.text)).run s₁ = ([], s₂))
      (others : Accepts types s₂ rest s₃) : Accepts types s ((label, value) :: rest) s₃

/-! ## One value after the other -/

section

variable {label : Label} {value : Operand} {t : Typed} {s₁ : Store}
  (htaken : value.take.run s = (t, s₁))
  (hclean : t.faults = [])
include htaken hclean

/-- A first value for a known field is compared with the type of the field. -/
theorem checkInits_known_run (hfield : types.lookup label.text = some type)
    (hnew : label.text ∉ done) (rest : List (Label × Operand)) :
    (checkInits y types done ((label, value) :: rest)).run s =
      let found := (expect type t.type value.pos ("field " ++ Text.quoted label.text)).run s₁
      let out := (checkInits y types (label.text :: done) rest).run found.2
      ((out.1.1, found.1 ++ out.1.2), out.2) := by
  have hnot : done.contains label.text = false := by simpa using hnew
  obtain ⟨type, faults⟩ := t
  subst hclean
  simp only [checkInits, StateT.run_bind, htaken, hfield, hnot]
  rfl

/-- A field that is not known, or has its value already, is a fault. -/
theorem checkInits_faults_ne (hbad : types.lookup label.text = none ∨ label.text ∈ done)
    (rest : List (Label × Operand)) :
    ((checkInits y types done ((label, value) :: rest)).run s).1.2 ≠ [] := by
  obtain ⟨type, faults⟩ := t
  subst hclean
  cases hfield : types.lookup label.text with
  | none =>
    simp only [checkInits, StateT.run_bind, htaken, hfield]
    exact cons_ne_nil _ _
  | some wanted =>
    have hin : done.contains label.text = true := by simpa [hfield] using hbad
    simp only [checkInits, StateT.run_bind, htaken, hfield, hin]
    exact cons_ne_nil _ _

end

/-- Values that are accepted, for fields that had none, are checked without faults. -/
theorem Accepts.run (ha : Accepts types s inits s') (hnd : (given inits).Nodup)
    (hnew : ∀ n ∈ given inits, n ∉ done) :
    (checkInits y types done inits).run s = (((given inits).reverse ++ done, []), s') := by
  induction ha generalizing done with
  | nil => rfl
  | @cons _ _ _ _ label _ _ _ rest taken clean field fits _ ih =>
    obtain ⟨hnot, hnd⟩ := nodup_cons.mp hnd
    obtain ⟨hfirst, hnew⟩ := forall_mem_cons.mp hnew
    rw [checkInits_known_run taken clean field hfirst, fits]
    dsimp only
    rw [ih hnd fun n hn =>
      not_mem_cons_of_ne_of_not_mem (fun heq => hnot (by subst heq; exact hn)) (hnew n hn)]
    simp [given]

/-- Conversely, a check without faults accepts the values, and gives no field two of them. -/
theorem accepts_of_no_faults (hv : ValuesCheck y types done s inits)
    (hnone : ((checkInits y types done inits).run s).1.2 = []) :
    (given inits).Nodup ∧ (∀ n ∈ given inits, n ∉ done) ∧ ∃ s', Accepts types s inits s' := by
  induction inits generalizing done s with
  | nil => exact ⟨nodup_nil, nofun, s, .nil s⟩
  | cons p rest ih =>
    obtain ⟨label, value⟩ := p
    obtain ⟨⟨t, s₁⟩, htaken⟩ : ∃ out, value.take.run s = out := ⟨_, rfl⟩
    have hclean : t.faults = [] := by
      have hfirst := hv [] _ rest rfl
      change (value.take.run s).1.faults = [] at hfirst
      rwa [htaken] at hfirst
    -- an unknown field and a second value for a field are both faults
    have hgood : ¬ (types.lookup label.text = none ∨ label.text ∈ done) := fun hbad =>
      checkInits_faults_ne htaken hclean hbad rest hnone
    obtain ⟨hfield, hnew⟩ := not_or.mp hgood
    obtain ⟨type, hfield⟩ := ne_none_iff_exists'.mp hfield
    have hrun := fun rest => checkInits_known_run (y := y) htaken hclean hfield hnew rest
    obtain ⟨⟨found, s₂⟩, hfits⟩ : ∃ out,
      (expect type t.type value.pos ("field " ++ Text.quoted label.text)).run s₁ = out := ⟨_, rfl⟩
    simp only [hfits] at hrun
    rw [hrun, append_eq_nil_iff] at hnone
    obtain ⟨rfl, hnone⟩ := hnone
    -- the values behind this one are checked in the store that it leaves
    have hrest : ValuesCheck y types (label.text :: done) s₂ rest := by
      intro front p back heq
      have hlater := hv ((label, value) :: front) p back (by rw [heq, cons_append])
      rwa [hrun] at hlater
    obtain ⟨hnd, hdone, s', ha⟩ := ih hrest hnone
    refine ⟨nodup_cons.mpr ⟨fun hin => hdone _ hin mem_cons_self, hnd⟩, ?_, s',
      .cons htaken hclean hfield hfits ha⟩
    exact forall_mem_cons.mpr ⟨hnew, fun n hn hin => hdone n hn (mem_cons_of_mem _ hin)⟩

theorem Accepts.mem_types (ha : Accepts types s inits s') (hn : n ∈ given inits) :
    n ∈ types.map Prod.fst := by
  induction ha with
  | nil => cases hn
  | cons _ _ field _ _ ih =>
    rcases mem_cons.mp hn with rfl | hn
    · exact List.mem_map_of_mem (Registry.mem_of_lookup field)
    · exact ih hn

/-! ## The literal -/

/-- The types of a structure and of its fields, copied for one literal. -/
def literalShape (s : Store) (y : Symbol) (type : Ty) : List Ty × Store :=
  (onRegistry (Registry.instantiateAll
    (type :: (fieldsOf s.table y).map fun f => f.type.getD .invalid) y.generics)).run s

/-- What the copy has for each field. -/
def literalTypes (s : Store) (y : Symbol) (type : Ty) : List (String × Ty) :=
  ((fieldsOf s.table y).map (·.name)).zip (literalShape s y type).1.tail

/-- A literal has its type if the values have no faults and no field is left out; otherwise it has
faults. -/
theorem structFields_cases {faults : List Diagnostic} (pos : Position)
    (hout : (checkInits y (literalTypes s y type) [] inits).run (literalShape s y type).2 =
      ((done, faults), s')) :
    faults = [] ∧ (∀ f ∈ fieldsOf s.table y, f.name ∈ done) ∧
    ((structFields y type inits pos).run s).1 =
          { type := ((resolve ((literalShape s y type).1.headD .invalid)).run s').1 } ∨
      ¬ (faults = [] ∧ ∀ f ∈ fieldsOf s.table y, f.name ∈ done) ∧
        ((structFields y type inits pos).run s).1.faults ≠ [] := by
  unfold literalTypes literalShape at hout
  unfold structFields literalShape
  have hget : (get : CheckM Store).run s = (s, s) := rfl
  simp only [run_bind, hget, hout]
  have hmissing : (fieldsOf s.table y).filter (fun f => !done.contains f.name) = [] ↔
      ∀ f ∈ fieldsOf s.table y, f.name ∈ done := by
    simp [filter_eq_nil_iff]
  split
  next hall => exact .inl ⟨rfl, hmissing.mp hall, rfl⟩
  next hsome =>
    refine .inr ⟨fun hall => hsome (hmissing.mpr hall.2), fun hnil => ?_⟩
    exact hsome (map_eq_nil_iff.mp hnil)
  next hfaults _ => exact .inr ⟨fun hall => hfaults hall.1, hfaults⟩

/-- The fields are the members of that kind. -/
theorem mem_fieldsOf_iff {t : Table} (h : t.Consistent) :
    (∃ f ∈ fieldsOf t y, f.name = n) ↔ ∃ id, t.member? y n = some id ∧
    (t.symbol id).kind = .field := by
  -- a member bears the name that it is found by
  have hname : ∀ {n id}, t.member? y n = some id → n ∈ t.memberNames y ∧
    (t.symbol id).name = n := by
    intro n id hid
    obtain ⟨home, hhome, hl⟩ := bind_eq_some_iff.mp hid
    unfold Table.lookupIn at hl
    split at hl
    next c hc =>
      have hmem := Table.mem_of_lookup_name hl
      obtain ⟨z, hz, hnamed, -⟩ := h.name_symbol (h.scope?_eq hc).2 _ hmem
      rw [Table.memberNames, hhome, Table.symbol_of_get? hz]
      refine ⟨?_, hnamed⟩
      simp only [Table.names, hc, Scope.sortedNames, mem_mergeSort]
      exact List.mem_map_of_mem hmem
    · cases hl
  constructor
  · rintro ⟨f, hf, rfl⟩
    obtain ⟨n, -, hf⟩ := mem_filterMap.mp hf
    split at hf
    next id hid =>
      split at hf
      next hkind =>
        obtain rfl := some.inj hf
        rw [(hname hid).2]
        exact ⟨id, hid, hkind⟩
      · cases hf
    · cases hf
  · rintro ⟨id, hid, hkind⟩
    refine ⟨t.symbol id, mem_filterMap.mpr ⟨n, (hname hid).1, ?_⟩, (hname hid).2⟩
    rw [hid]
    exact if_pos hkind

/-- **Literals of structures are checked exactly.** The literal names a structure or class, and its
values have no faults of their own. It has no faults just in case its names are those of the fields,
each once, and the values in their order fit the types of the fields, all of which are copied
together with the type of the structure for new type parameters. The literal is then of the copied
type. -/
theorem structLiteral_exact {s s₁ : Store} (h : s.Good) {name : String} {id : Nat} {y : Symbol}
    {type : Ty} {inits : List (Label × Operand)} (pos : Position)
    (hname : s.table.lookup name = .ok id)
    (hused : (useSymbol id).run s = (y, s₁)) (hkind : y.kind = .structType ∨ y.kind = .classType)
    (htype : y.type = some type)
    (hvalues : ValuesCheck y (literalTypes s₁ y type) [] (literalShape s₁ y type).2 inits) :
    (∃ fresh, Registry.Copies s₁.registry
      (type :: (fieldsOf s₁.table y).map fun f => f.type.getD .invalid) y.generics fresh
      ((literalShape s₁ y type).1, (literalShape s₁ y type).2.registry)) ∧
    (((structLiteral name inits pos).run s).1.faults = [] ↔ (given inits).Nodup ∧
      (∀ n, n ∈ given inits ↔
        ∃ f, s₁.table.member? y n = some f ∧ (s₁.table.symbol f).kind = .field) ∧
      ∃ s₂, Accepts (literalTypes s₁ y type) (literalShape s₁ y type).2 inits s₂) ∧
    (((structLiteral name inits pos).run s).1.faults = [] →
      ∃ s₂, Accepts (literalTypes s₁ y type) (literalShape s₁ y type).2 inits s₂ ∧
        ((structLiteral name inits pos).run s).1.type =
          ((resolve ((literalShape s₁ y type).1.headD .invalid)).run s₂).1) := by
  have hends := useSymbol_ends (ρ := .over .any fun _ => True) h (h.table.lookupFrom_sees hname)
  obtain ⟨h₁, hoffers⟩ := And.intro hends.good hends.result
  rw [hused] at h₁ hoffers
  -- the name leads to `y`, and the literal is checked against its fields
  have hrun : (structLiteral name inits pos).run s = (structFields y type inits pos).run s₁ := by
    unfold structLiteral
    rw [run_bind, lookup_run hname]
    dsimp only
    rw [run_bind, hused]
    rcases hkind with hk | hk <;> simp [hk, htype]
  obtain ⟨⟨⟨done, faults⟩, s₂⟩, hout⟩ : ∃ out, (checkInits y (literalTypes s₁ y type) [] inits).run
    (literalShape s₁ y type).2 = out := ⟨_, rfl⟩
  -- the types of the copy are listed under the names of the fields
  have hfield : ∀ {n}, n ∈ (literalTypes s₁ y type).map Prod.fst → ∃ f ∈ fieldsOf s₁.table y,
    f.name = n := by
    intro n hn
    obtain ⟨p, hp, rfl⟩ := List.mem_map.mp hn
    exact List.mem_map.mp (List.of_mem_zip hp).1
  refine ⟨h₁.registry.instantiateAll_copies ?_ y.generics, ?_⟩
  · rw [List.forall_mem_cons, List.forall_mem_map]
    exact ⟨hoffers.admits.holds type htype, holds_fieldsOf h₁ y⟩
  rw [hrun]
  simp only [← mem_fieldsOf_iff h₁.table.toConsistent]
  -- either there was no fault, and the loop over the values tells what they were, or there is one,
  -- and then an accepted literal would have run without it
  rcases structFields_cases pos hout with ⟨rfl, hall, hres⟩ | ⟨hbad, hne⟩
  · obtain ⟨hnd, -, s', ha⟩ := accepts_of_no_faults hvalues (by rw [hout])
    obtain ⟨hdone, hs'⟩ := Prod.mk.inj (hout.symm.trans (ha.run hnd (by simp)))
    obtain rfl := (Prod.mk.inj hdone).1
    rw [hres]
    refine ⟨⟨fun _ =>
      ⟨hnd, fun n => ⟨fun hn => hfield (ha.mem_types hn), ?_⟩, s', ha⟩, fun _ => rfl⟩,
      fun _ => ⟨s', ha, by rw [hs']⟩⟩
    rintro ⟨f, hf, rfl⟩
    simpa using hall f hf
  · refine ⟨⟨fun hnil => absurd hnil hne, ?_⟩, fun hnil => absurd hnil hne⟩
    rintro ⟨hnd, hnames, s', ha⟩
    obtain ⟨hdone, -⟩ := Prod.mk.inj (hout.symm.trans (ha.run hnd (by simp)))
    obtain ⟨rfl, rfl⟩ := Prod.mk.inj hdone
    refine absurd ⟨rfl, fun f hf => ?_⟩ hbad
    simpa using (hnames f.name).mpr ⟨f, hf, rfl⟩

/-! ## A generic structure -/

/-- `struct Pair<T> { a: T, b: T }` -/
def pair : Item :=
  .structType ⟨⟨.unknown, ⟨"Pair", .unknown⟩, false⟩, [⟨"T", .unknown⟩],
    [⟨⟨"a", .unknown⟩, .named ["T"] [] .unknown, false⟩,
      ⟨⟨"b", .unknown⟩, .named ["T"] [] .unknown, false⟩]⟩

def pairDeclared : Store := (((Analysis.checkItem {} pair none).run []).run {}).2

/-- `Pair { b: 2, a: 1 }` -/
def pairInits : List (Label × Operand) :=
  [(⟨"b", .unknown⟩, operand 0 (.literal (.int 2) .unknown)),
    (⟨"a", .unknown⟩, operand 0 (.literal (.int 1) .unknown))]

theorem pairDeclared_good : pairDeclared.Good := by
  have h : Analysis.Reports .any {} (Analysis.checkItem {} pair none) fun _ _ => True :=
    Analysis.checkItem_alone_reports pair (by simp [pair]) Store.good_empty
      (by simp [Setting.Holds])
  exact h.good []

theorem lookup_pair : pairDeclared.table.lookup "Pair" = .ok 0 := by
  have hsome : (pairDeclared.table.lookup "Pair").toOption = some 0 := by decide +kernel
  cases hl : pairDeclared.table.lookup "Pair" with
  | error e => simp [hl, Except.toOption] at hsome
  | ok id => simpa [hl, Except.toOption] using hsome

/-- What the literal finds under the name, and the store then. -/
def pairUsed : Symbol × Store := (useSymbol 0).run pairDeclared

/-- The names of the members are in order as they were declared, so that nothing has to be
sorted. -/
theorem memberNames_pair : pairUsed.2.table.memberNames pairUsed.1 = ["T", "a", "b"] := by
  have hmembers : pairUsed.1.members = some 1 := by decide +kernel
  have hnames : (pairUsed.2.table.scope? 1).map (·.names.map (·.1)) = some ["T", "a", "b"] := by
    decide +kernel
  obtain ⟨c, hc, hcs⟩ := Option.map_eq_some_iff.mp hnames
  have hsorted : c.sortedNames = ["T", "a", "b"] := by
    rw [Scope.sortedNames, hcs]
    exact mergeSort_of_pairwise (by decide +kernel)
  simp only [Table.memberNames, hmembers, Table.names]
  rw [show ((1 : Nat) : Int) = 1 from rfl, hc]
  exact hsorted

theorem fieldsOf_pair : fieldsOf pairUsed.2.table pairUsed.1 =
    [pairUsed.2.table.symbol 2, pairUsed.2.table.symbol 3] := by
  have hmembers : ["T", "a", "b"].map (pairUsed.2.table.member? pairUsed.1) =
      [some 1, some 2, some 3] := by
    decide +kernel
  have hkinds : [1, 2, 3].map (fun id => (pairUsed.2.table.symbol id).kind) =
      [.generic, .field, .field] := by
    decide +kernel
  simp only [map_cons, map_nil, cons.injEq, and_true] at hmembers hkinds
  obtain ⟨ht, ha, hb⟩ := hmembers
  obtain ⟨hkt, hka, hkb⟩ := hkinds
  rw [fieldsOf, memberNames_pair]
  simp [ht, ha, hb, hkt, hka, hkb]

def pairType : Ty := pairUsed.1.type.getD .invalid

/-- The types of the structure and of its two fields with a new variable for `T`. -/
def pairShape : List Ty × Store :=
  (onRegistry (Registry.instantiateAll
    (pairType :: [pairUsed.2.table.symbol 2, pairUsed.2.table.symbol 3].map
    fun f => f.type.getD .invalid) pairUsed.1.generics)).run pairUsed.2

theorem literalShape_pair : literalShape pairUsed.2 pairUsed.1 pairType = pairShape := by
  rw [literalShape, fieldsOf_pair, pairShape]

theorem fieldNames_pair : (fieldsOf pairUsed.2.table pairUsed.1).map (·.name) = ["a", "b"] := by
  rw [fieldsOf_pair]
  decide +kernel

theorem literalTypes_pair :
    literalTypes pairUsed.2 pairUsed.1 pairType = ["a", "b"].zip pairShape.1.tail := by
  rw [literalTypes, fieldNames_pair, literalShape_pair]

/-- The names of the literal are those of the fields. -/
theorem mem_given_pair (n : String) : n ∈ given pairInits ↔
    ∃ f, pairUsed.2.table.member? pairUsed.1 n = some f ∧
    (pairUsed.2.table.symbol f).kind = .field := by
  have hends := useSymbol_ends (ρ := .over .any fun _ => True) pairDeclared_good
    (pairDeclared_good.table.lookupFrom_sees lookup_pair)
  have hfields : (∃ f ∈ fieldsOf pairUsed.2.table pairUsed.1, f.name = n) ↔ n ∈ ["a", "b"] := by
    rw [← fieldNames_pair, List.mem_map]
  have hconsistent : pairUsed.2.table.Consistent := hends.good.table.toConsistent
  rw [← mem_fieldsOf_iff hconsistent, hfields, given, pairInits]
  simp [or_comm]

theorem pairInits_check (y : Symbol) (types : List (String × Ty)) (s : Store) :
    ValuesCheck y types [] s pairInits := by
  intro front p back heq
  have hp : p ∈ pairInits := by simp [heq]
  rcases mem_pair.mp hp with rfl | rfl <;> rfl

/-- `Pair { b: 2, a: 1 }`: its names are those of the fields in another order, and both values have
the type that the copy has for `T`. The literal is a `Pair<int>`. -/
theorem structLiteral_exact_pair :
    ((structLiteral "Pair" pairInits .unknown).run pairDeclared).1.faults = [] ∧
      ((structLiteral "Pair" pairInits .unknown).run pairDeclared).1.type =
        .named "<body>#0.Pair" [.int] := by
  have hkind : pairUsed.1.kind = .structType := by decide +kernel
  have htype : pairUsed.1.type = some pairType := by decide +kernel
  have hexact := structLiteral_exact pairDeclared_good .unknown lookup_pair
    (Prod.mk.eta (p := pairUsed)).symm (.inl hkind) htype (pairInits_check _ _ _)
  rw [literalTypes_pair, literalShape_pair] at hexact
  have hrun : ((checkInits pairUsed.1 (["a", "b"].zip pairShape.1.tail)
    [] pairInits).run pairShape.2).1.2 = [] :=
    isEmpty_iff.mp (by decide +kernel)
  obtain ⟨hnd, -, s', ha⟩ := accepts_of_no_faults (pairInits_check _ _ _) hrun
  have hfaults := hexact.2.1.mpr ⟨hnd, mem_given_pair, s', ha⟩
  refine ⟨hfaults, ?_⟩
  obtain ⟨s₂, ha₂, htype₂⟩ := hexact.2.2 hfaults
  have hs₂ : ((checkInits pairUsed.1 (["a", "b"].zip pairShape.1.tail)
    [] pairInits).run pairShape.2).2 = s₂ :=
    congrArg Prod.snd (ha₂.run hnd (by simp))
  rw [htype₂, ← hs₂]
  decide +kernel

end UnitCheck.Checking
