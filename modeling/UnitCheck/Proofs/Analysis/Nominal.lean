import UnitCheck.Proofs.Analysis.Located

/-!
# Named types and the symbols that declared them

A structure, class or enumeration is known by the name of its type, and that name is put together
from the names around it. In an orderly store two of them never have the same (`Orderly.name_inj`),
so types of one are not identical to types of another, and the owner of a type is the symbol that
declared it. Since all passes keep the store orderly, this is so at the end of every analysis
(`types_are_told_apart`): for types in modules of any depth, and for those in bodies.
-/

namespace UnitCheck

open Checking Markup

/-- `t` is the type of the symbol with any arguments for its type parameters. -/
def Symbol.Instance (y : Symbol) (t : Ty) : Prop :=
  ∃ name params args, y.type = some (.named name params) ∧ t = .named name args

/-- Structures, classes and enumerations are told apart by their types. Other names that imports
have given them are left out. -/
structure Store.TellsTypesApart (s : Store) : Prop where
  /-- Each of them has a type. -/
  typed : ∀ y ∈ s.table.symbols, y.DeclaresType → ∃ t, y.type = some t ∧ y.Instance t
  /-- The owner of a type is the one that declared it. -/
  owner_eq : ∀ y ∈ s.table.symbols, y.DeclaresType → ∀ t, y.Instance t →
    ((Analysis.owner? t).run s).1 = some y
  /-- The types of two of them are not identical, whatever variables are bound to. -/
  apart : ∀ (i j : Nat) (y z : Symbol), s.table.symbols[i]? = some y →
    s.table.symbols[j]? = some z →
    y.DeclaresType → z.DeclaresType → i ≠ j →
      ∀ t u, y.Instance t → z.Instance u → ∀ r : Registry, r.identical t u = false

namespace Registry

/-- A named type is registered under its name. -/
theorem register_named (r : Registry) (name : String) (args : List Ty) :
    ∃ args', ((register (.named name args)).run r).1 = .named name args' := by
  rw [register]
  simp only [StateT.run_bind, StateT.run_get, pure_bind]
  split
  · exact ⟨args, rfl⟩
  · exact ⟨_, rfl⟩

theorem resolve_named (r : Registry) (name : String) (args : List Ty) :
    ∃ args', ((resolve (.named name args)).run r).1 = .named name args' := by
  have happlied : ∃ args', r.applied (.named name args) = .named name args' := by
    unfold applied
    cases r.reach with
    | zero => exact ⟨args, rfl⟩
    | succ depth => exact ⟨_, rfl⟩
  obtain ⟨args', happlied⟩ := happlied
  unfold resolve
  simp only [StateT.run_bind, StateT.run_get, pure_bind, happlied, registerTerm]
  exact r.register_named name args'

theorem identical_named_of_ne (r : Registry) {name name' : String} (hne : name ≠ name')
    (args args' : List Ty) : r.identical (.named name args) (.named name' args') = false := by
  unfold identical
  cases r.depth with
  | zero => rfl
  | succ depth =>
    rw [identicalWithin, r.head_of_not_var (by simp), r.head_of_not_var (by simp)]
    simp [hne, Ty.isInvalid]

end Registry

namespace Store

section

variable {A : Sites} {s : Store} {name : String} {i : Nat} {y : Symbol}

/-- The symbols of two named types with the same name are the same. -/
theorem Orderly.name_inj (h : s.Orderly A) (ht : s.table.Consistent) {j : Nat}
    (hi : (name, i) ∈ s.nominal) (hj : (name, j) ∈ s.nominal) : i = j := by
  obtain ⟨y, hy⟩ := h.nominal _ hi
  obtain ⟨z, hz⟩ := h.nominal _ hj
  exact hy.unique ht hz

theorem Orderly.lookup_nominal (h : s.Orderly A) (ht : s.table.Consistent)
    (hi : (name, i) ∈ s.nominal) : s.nominal.lookup name = some i := by
  cases hlookup : s.nominal.lookup name with
  | none => exact absurd (List.mem_map_of_mem hi) (Table.not_mem_of_lookup_eq_none hlookup)
  | some j => rw [h.name_inj ht (Registry.mem_of_lookup hlookup) hi]

/-- The type of a symbol that declares one is on the list of nominal types. -/
theorem Orderly.mem_nominal (h : s.Orderly A)
    (hy : s.table.symbols[i]? = some y) (hdeclares : y.DeclaresType)
    {params : List Ty} (htype : y.type = some (.named name params)) : (name, i) ∈ s.nominal := by
  obtain ⟨name', params', heq, hmem⟩ := h.typed hy hdeclares _ htype
  obtain ⟨rfl, -⟩ := Ty.named.inj heq
  exact hmem

/-- The owner of an instance of a named type is the symbol that declared it. -/
theorem Orderly.owner_eq (h : s.Orderly A) (hs : s.table.Consistent)
    (hy : s.table.symbols[i]? = some y) (hdeclares : y.DeclaresType) {t : Ty} (ht : y.Instance t) :
    ((Analysis.owner? t).run s).1 = some y := by
  obtain ⟨name, params, args, htype, rfl⟩ := ht
  have hlookup := h.lookup_nominal hs (h.mem_nominal hy hdeclares htype)
  obtain ⟨args', hresolved⟩ := s.registry.resolve_named name args
  have hrun : (Checking.resolve (.named name args)).run s = (.named name args',
      { s with registry := ((Registry.resolve (.named name args)).run s.registry).2 }) := by
    rw [← hresolved]
    rfl
  unfold Analysis.owner?
  rw [StateT.run_bind, hrun]
  -- to resolve a type changes the registry only, so the name is looked up as before
  show (s.nominal.lookup name).map s.table.symbol = some y
  rw [hlookup, Option.map_some, Table.symbol_of_get? hy]

/-- Two symbols with one type have one qualified name, and so are one symbol. -/
theorem Completes.tellsTypesApart (hc : Completes A {} s) (hc' : s.table.Consistent)
    (hs : A.settled) :
    s.TellsTypesApart := by
  have hget : ∀ y ∈ s.table.symbols, ∃ i : Nat, s.table.symbols[i]? = some y :=
    fun y hy => Array.mem_iff_getElem?.mp hy
  have h := hc.orderly
  constructor
  · intro y hmem hdeclares
    obtain ⟨i, hy⟩ := hget y hmem
    cases htype : y.type with
    | none =>
      -- nothing was there in the beginning, so all types are new
      have hlt := (hc.settles hs).typed i y hy hdeclares htype
      simp at hlt
    | some t =>
      obtain ⟨name, params, rfl, -⟩ := h.typed hy hdeclares t htype
      exact ⟨_, rfl, name, params, params, htype, rfl⟩
  · intro y hmem hdeclares t ht
    obtain ⟨i, hy⟩ := hget y hmem
    exact h.owner_eq hc' hy hdeclares ht
  · intro i j y z hy hz hydeclares hzdeclares hne t u ht hu r
    obtain ⟨name, params, args, hytype, rfl⟩ := ht
    obtain ⟨name', params', args', hztype, rfl⟩ := hu
    refine r.identical_named_of_ne (fun hname => hne ?_) args args'
    subst hname
    exact h.name_inj hc' (h.mem_nominal hy hydeclares hytype) (h.mem_nominal hz hzdeclares hztype)

end

end Store

open Analysis

/-- At the end of the analysis of any unit that is read, under every configuration, structures,
classes and enumerations are told apart by their types. -/
theorem types_are_told_apart (c : Config) :
    (∀ (disk : Disk Id) (paths : List String),
      (analyze c (disk.unit paths)).store.TellsTypesApart) ∧
    ∀ (depth : Nat) (file : String) (n : Node),
      (analyze c (unitOfNode depth file n).1).store.TellsTypesApart := by
  have hanywhere : ∀ file, Covers (.named fun _ => True) file :=
    fun _ => ⟨fun _ _ _ => trivial, fun _ h => h⟩
  have hstore : ∀ items : List Item, Item.AllPlaced (.named fun _ => True) items →
    Item.AllFit items →
      (analyze c items).store.TellsTypesApart := by
    intro items hat hfit
    rw [analyze_store hfit c]
    have hpasses := (passes_eq hat hfit c).1
    exact (hpasses.completes fun _ h => h).tellsTypesApart hpasses.good.table.toConsistent trivial
  constructor
  · intro disk paths
    obtain ⟨hplaced, hfit⟩ := disk.unit_formed paths fun path _ _ _ => hanywhere path
    exact hstore _ hplaced hfit
  · intro depth file n
    obtain ⟨hplaced, hfit⟩ := unitOfNode_formed (hanywhere file) depth n
    exact hstore _ hplaced hfit

/-- Three structures `P`: of the unit, of the module `m` and of the body of the function `f`. -/
def namesakes : Node :=
  let items (nodes : List Node) : Node := .sequence ⟨0, 0, 0⟩ "!!seq" nodes
  let entry (key value : String) : Node × Node := (word 0 0 key, word 0 0 value)
  let plain : Node := .mapping ⟨0, 0, 0⟩ "!!map" [entry "struct" "P"]
  let around (key name : String) : Node :=
    .mapping ⟨0, 0, 0⟩ "!!map" [entry key name, (word 0 0 "body", items [plain])]
  items [plain, around "module" "m", around "fn" "f"]

/-- Structures of one name: one of the unit, one of a module and one of a function body. -/
theorem types_are_told_apart_namesakes :
    let s := (analyze {} (unitOfNode 5 "namesakes.yaml" namesakes).1).store
    s.table.symbols.toList.filterMap (·.type) =
        [.named "P" [], .named "m.P" [], .func [] .unit, .named "f#4.P" []] ∧
      s.TellsTypesApart :=
  ⟨by decide +kernel, (types_are_told_apart {}).2 5 "namesakes.yaml" namesakes⟩

end UnitCheck
