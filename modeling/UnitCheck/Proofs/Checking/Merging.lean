import UnitCheck.Proofs.Checking.Stores

/-!
# Branches that are merged

The branches of a statement are checked one after the other. Each starts from what was known before
the first one, which is restored from a snapshot; records are not restored, so those of a variable
that an earlier branch has moved are gone (`Store.Spares`). In the end what is known at the ends of
all branches is put together (`Store.Merges`), and then nothing is missing: a variable without its
records has been moved on some branch (`Store.Merges.keeps`).
-/

namespace UnitCheck

open List Option

namespace Snapshot

/-- Whether the variable had a value on all paths when the snapshot was taken. -/
def isInitialized (e : Snapshot) (id : Int) : Bool := (e.lookup id).any (·.initialized)

/-- Whether the variable had been moved when the snapshot was taken. -/
def isMoved (e : Snapshot) (id : Int) : Bool := (e.lookup id).any (·.movedAt.isSome)

theorem isInitialized_snapshot {l : Ledger} {id : Int} {k : Holding} (hk : l.get? id = some k) :
    isInitialized l.snapshot id = k.initialized := by
  rw [isInitialized, Ledger.lookup_snapshot, hk]
  rfl

theorem isMoved_snapshot {l : Ledger} {id : Int} {k : Holding} (hk : l.get? id = some k) :
    isMoved l.snapshot id = k.isMoved := by
  rw [isMoved, Ledger.lookup_snapshot, hk]
  rfl

end Snapshot

namespace Ledger

variable {l : Ledger} {e : Snapshot} {id : Int} {k' : Holding}

/-- The status of a variable comes from the snapshot, its records do not. -/
theorem get?_of_restore (hk' : (l.restore e).get? id = some k') (he : (e.lookup id).isSome = true) :
    ∃ k, l.get? id = some k ∧ k'.active = k.active ∧ k'.initialized = e.isInitialized id ∧
      k'.isMoved = e.isMoved id := by
  obtain ⟨flow, hflow⟩ := isSome_iff_exists.mp he
  rw [get?_restore] at hk'
  obtain ⟨k, hk, rfl⟩ := map_eq_some_iff.mp hk'
  rw [Snapshot.isInitialized, Snapshot.isMoved, hflow]
  exact ⟨k, hk, rfl, rfl, rfl⟩

/-- A join loses the records of a variable only if it was moved on the other branch. -/
theorem get?_of_join (hk' : (l.join e).get? id = some k') (he : (e.lookup id).isSome = true) :
    ∃ k, l.get? id = some k ∧ (e.isMoved id = false → k'.active = k.active) ∧
      k'.initialized = (k.initialized && e.isInitialized id) ∧
      k'.isMoved = (k.isMoved || e.isMoved id) := by
  obtain ⟨flow, hflow⟩ := isSome_iff_exists.mp he
  rw [get?_join] at hk'
  obtain ⟨k, hk, rfl⟩ := map_eq_some_iff.mp hk'
  rw [Snapshot.isInitialized, Snapshot.isMoved, hflow]
  have hstatus := k.join_status flow
  refine ⟨k, hk, fun hm => ?_, congrArg Status.initialized hstatus, congrArg Status.moved hstatus⟩
  obtain ⟨name, mutable, initialized, movedAt, active⟩ := k
  obtain ⟨init, pos⟩ := flow
  cases pos with
  | none => cases movedAt <;> rfl
  | some pos => cases hm

end Ledger

namespace Store

/-- What is known at the end of a branch that began with what `s` knows, `s'` being a later
store. -/
structure Ended (s : Store) (e : Snapshot) (s' : Store) : Prop where
  tracked : ∀ {id : Int}, s.ledger.isTracked id = true → (e.lookup id).isSome = true
  initialized : ∀ {id : Int} {k : Holding}, s.ledger.get? id = some k → k.initialized = true →
    e.isInitialized id = true
  moved : ∀ {id : Int} {k : Holding}, ¬ s.Declared s' id → s.ledger.get? id = some k →
    k.isMoved = true → e.isMoved id = true

/-- No record of a variable that was not moved at any of the ends is missing. -/
def Spares (s : Store) (ends : List Snapshot) (s' : Store) : Prop :=
  s.Filed → ∀ {id : Int} {k k' : Holding}, ¬ s.Declared s' id → s.ledger.get? id = some k →
    s'.ledger.get? id = some k' → (∀ e ∈ ends, e.isMoved id = false) → k.active.Sublist k'.active

/-- A variable has a value if it has one at all ends, and has been moved if it was moved at one of
them. -/
structure Merges (s : Store) (ends : List Snapshot) (s' : Store) : Prop where
  initialized : ∀ {id : Int} {k k' : Holding}, s.ledger.get? id = some k →
    s'.ledger.get? id = some k' → k'.initialized = ends.all (·.isInitialized id)
  moved : ∀ {id : Int} {k k' : Holding}, s.ledger.get? id = some k →
    s'.ledger.get? id = some k' → k'.isMoved = ends.any (·.isMoved id)

section

variable {P : Int → Prop} {s s' s'' : Store} {e : Snapshot} {ends ends' : List Snapshot}

/-! ## Ends -/

theorem Keeps.ended (h : s.Keeps P s') (hr : s.Reaches P s') : s.Ended s'.ledger.snapshot s' where
  tracked hid := by
    rw [Ledger.lookup_snapshot, isSome_map]
    exact hr.tracked hid
  initialized hk hi := by
    obtain ⟨k', hk', -⟩ := hr.holdings hk
    rw [Snapshot.isInitialized_snapshot hk']
    exact h.initialized hk hk' hi
  moved hno hk hm := by
    obtain ⟨k', hk', -⟩ := hr.holdings hk
    rw [Snapshot.isMoved_snapshot hk']
    exact h.moved hno hk hk' hm

theorem Ended.later (h : s.Ended e s') (ht : s'.trail <:+ s''.trail) : s.Ended e s'' :=
  { h with moved := fun hno => h.moved fun hd => hno (hd.left ht) }

/-- A branch that starts from what was restored. -/
theorem Ended.of_restored
    (h : { s' with ledger := s'.ledger.restore s.ledger.snapshot }.Ended e s'')
    (hr : s.Reaches P s') : s.Ended e s'' := by
  have hrestored : ∀ {id : Int} {k : Holding}, s.ledger.get? id = some k →
      ∃ k', (s'.ledger.restore s.ledger.snapshot).get? id = some k' ∧
        k'.initialized = k.initialized ∧ k'.isMoved = k.isMoved := by
    intro id k hk
    obtain ⟨k', hk', -⟩ := hr.holdings hk
    rw [Ledger.get?_restore, hk', Ledger.lookup_snapshot, hk]
    exact ⟨_, rfl, rfl, rfl⟩
  constructor
  · intro id hid
    refine h.tracked ?_
    rw [Ledger.isTracked_restore]
    exact hr.tracked hid
  · intro id k hk hi
    obtain ⟨k', hk', hinit, -⟩ := hrestored hk
    exact h.initialized hk' (hinit.trans hi)
  · intro id k hno hk hm
    obtain ⟨k', hk', -, hmoved⟩ := hrestored hk
    exact h.moved (fun hd => hno (hd.right hr.trail)) hk' (hmoved.trans hm)

/-! ## Records -/

theorem Keeps.spares (h : s.Keeps (fun _ => False) s') : s.Spares [s'.ledger.snapshot] s' := by
  intro hs id k k' hno hk hk' hm
  rw [forall_mem_singleton, Snapshot.isMoved_snapshot hk'] at hm
  have hkept := h.records hs hno hk hk' hm
  rwa [Holding.apart_none] at hkept

theorem Spares.refl (s : Store) : s.Spares ends s := by
  intro _ id k k' _ hk hk' _
  obtain rfl := mem_unique hk hk'
  exact .refl _

theorem Spares.trans (h : s.Spares ends s') (h' : s'.Spares ends' s'')
    (hr : s.Reaches (fun _ => False) s') (ht : s'.trail <:+ s''.trail) :
    s.Spares (ends ++ ends') s'' := by
  intro hs id k k'' hno hk hk'' hm
  rw [forall_mem_append] at hm
  obtain ⟨k', hk', -⟩ := hr.holdings hk
  have hfirst := h hs (fun hd => hno (hd.left ht)) hk hk' hm.1
  have hsecond :=
    h' (hr.filed (fun _ => False.elim) hs) (fun hd => hno (hd.right hr.trail)) hk' hk'' hm.2
  exact hfirst.trans hsecond

theorem Spares.mono (h : s.Spares ends s') (hsub : ∀ e ∈ ends, e ∈ ends') : s.Spares ends' s' :=
  fun hs _ _ _ hno hk hk' hm => h hs hno hk hk' fun e he => hm e (hsub e he)

theorem spares_restore (s : Store) (e : Snapshot) (ends : List Snapshot) :
    s.Spares ends { s with ledger := s.ledger.restore e } := by
  intro _ id k k' _ hk hk' _
  have hk' : (s.ledger.restore e).get? id = some k' := hk'
  rw [Ledger.get?_restore, hk] at hk'
  obtain rfl := some.inj hk'
  split <;> exact .refl _

theorem spares_join (s : Store) (e : Snapshot) :
    s.Spares [e] { s with ledger := s.ledger.join e } := by
  intro _ id k k' _ hk hk' hm
  rw [forall_mem_singleton] at hm
  have hk' : (s.ledger.join e).get? id = some k' := hk'
  cases he : e.lookup id with
  | none =>
    rw [Ledger.get?_join, hk, he] at hk'
    obtain rfl := some.inj hk'
    exact .refl _
  | some flow =>
    obtain ⟨k₀, hk₀, hactive, -⟩ := Ledger.get?_of_join hk' (by rw [he]; rfl)
    obtain rfl := mem_unique hk hk₀
    rw [hactive hm]

/-! ## Merging -/

/-- The only end so far. -/
theorem merges_snapshot (s s' : Store) : s.Merges [s'.ledger.snapshot] s' where
  initialized _ hk' := by
    rw [all_cons, all_nil, Bool.and_true, Snapshot.isInitialized_snapshot hk']
  moved _ hk' := by
    rw [any_cons, any_nil, Bool.or_false, Snapshot.isMoved_snapshot hk']

theorem merges_restore (he : s.Ended e s'') (s' : Store) :
    s.Merges [e] { s' with ledger := s'.ledger.restore e } := by
  constructor
  · intro id k k' hk hk'
    have hin := he.tracked (Ledger.isTracked_iff.mpr ⟨k, hk⟩)
    obtain ⟨_, _, _, hinit, -⟩ := Ledger.get?_of_restore hk' hin
    rw [hinit, all_cons, all_nil, Bool.and_true]
  · intro id k k' hk hk'
    have hin := he.tracked (Ledger.isTracked_iff.mpr ⟨k, hk⟩)
    obtain ⟨_, _, _, -, hmoved⟩ := Ledger.get?_of_restore hk' hin
    rw [hmoved, any_cons, any_nil, Bool.or_false]

/-- One more branch that ends in `e` is joined to those before it. -/
theorem Merges.join (h : s.Merges ends s') (he : s.Ended e s'') :
    s.Merges (ends ++ [e]) { s' with ledger := s'.ledger.join e } := by
  constructor
  · intro id k k' hk hk'
    have hin := he.tracked (Ledger.isTracked_iff.mpr ⟨k, hk⟩)
    obtain ⟨k₀, hk₀, _, hinit, -⟩ := Ledger.get?_of_join hk' hin
    rw [hinit, h.initialized hk hk₀, all_append, all_cons, all_nil, Bool.and_true]
  · intro id k k' hk hk'
    have hin := he.tracked (Ledger.isTracked_iff.mpr ⟨k, hk⟩)
    obtain ⟨k₀, hk₀, _, -, hmoved⟩ := Ledger.get?_of_join hk' hin
    rw [hmoved, h.moved hk hk₀, any_append, any_cons, any_nil, Bool.or_false]

/-- Once all branches have been merged, nothing is missing. -/
theorem Merges.keeps (h : s.Merges ends s') (hne : ends ≠ []) (hends : ∀ e ∈ ends, s.Ended e s')
    (hs : s.Spares ends s') : s.Keeps P s' where
  initialized hk hk' hi := by
    rw [h.initialized hk hk', List.all_eq_true]
    exact fun e he => (hends e he).initialized hk hi
  moved hno hk hk' hm := by
    obtain ⟨e, he⟩ := exists_mem_of_ne_nil ends hne
    rw [h.moved hk hk', List.any_eq_true]
    exact ⟨e, he, (hends e he).moved hno hk hm⟩
  records hf id k k' hno hk hk' hm := by
    rw [h.moved hk hk', List.any_eq_false] at hm
    have hactive := hs hf hno hk hk' fun e he => Bool.not_eq_true _ ▸ hm e he
    exact (k.apart_sublist P).trans hactive

end

end Store

end UnitCheck
