import UnitCheck.Proofs.Ownership.Exclusion

/-!
# Records and flows

What each change of a ledger does to the holding of a symbol, and the two things that are read off a
holding later: its records, and its status (whether the variable is initialized, and whether it was
moved).

* `Holding.access_status` — when an access is granted, and what it leaves.
* `Ledger.Spent` — a variable that was moved has no records. Going back to a snapshot keeps this
  only where the records have not grown since the snapshot was taken (`Spent.restore`).
* `Ledger.Under` — the records that are new were made under scopes of one kind, and the others are
  old ones in their old order.
* `Sound.validate_eq_nil` — what the last look at a ledger comes down to.
-/

namespace UnitCheck

open List Option

variable {l l' : Ledger} {a : Access} {P : Int → Prop}

/-- Whether a variable has a value and whether the value was moved away. -/
structure Status where
  initialized : Bool
  moved : Bool
  deriving Repr, DecidableEq, Inhabited

namespace Status

/-- Whether a variable in this status can be accessed: it has not been moved, and unless it is
written to it has a value. -/
def Allows (s : Status) (kind : AccessKind) : Prop :=
  s.moved = false ∧ (kind = .write ∨ s.initialized = true)

instance (s : Status) (kind : AccessKind) : Decidable (s.Allows kind) :=
  inferInstanceAs (Decidable (_ ∧ _))

/-- The status after an access. -/
def after (s : Status) (kind : AccessKind) : Status where
  initialized := s.initialized || decide (kind = .write)
  moved := s.moved || decide (kind = .move)

end Status

namespace Holding

def status (h : Holding) : Status := ⟨h.initialized, h.isMoved⟩

/-- What a granted access has found and what it leaves. -/
theorem access_status {h h' : Holding} (hok : h.access a = .ok h') :
    h.status.Allows a.kind ∧ h'.status = h.status.after a.kind ∧
      (h'.isMoved = true → h'.active = []) ∧ h'.active.Sublist (h.active ++ [a]) := by
  cases granted_of_access hok with
  | shared hthere hkind _ _ =>
    rcases hkind with hkind | hkind <;>
      simp_all [Status.Allows, Status.after, status, isMoved, record]
  | alone | write | move => simp_all [Status.Allows, Status.after, status, isMoved, record]

theorem join_status (h : Holding) (other : Flow) : (h.join other).status =
      ⟨h.initialized && other.initialized, h.isMoved || other.movedAt.isSome⟩ := by
  obtain ⟨name, mutable, initialized, movedAt, active⟩ := h
  obtain ⟨init, pos⟩ := other
  cases movedAt <;> cases pos <;> rfl

theorem join_active (h : Holding) (other : Flow) :
    (h.join other).active = h.active ∨ (h.join other).active = [] := by
  obtain ⟨name, mutable, initialized, movedAt, active⟩ := h
  obtain ⟨init, pos⟩ := other
  cases movedAt <;> cases pos <;> simp [join]

/-- If a moved variable has no records, it has none after a join either. -/
theorem join_spent {h : Holding} (hs : h.isMoved = true → h.active = []) (other : Flow)
    (hm : (h.join other).isMoved = true) : (h.join other).active = [] := by
  obtain ⟨name, mutable, initialized, movedAt, active⟩ := h
  obtain ⟨init, pos⟩ := other
  cases movedAt <;> cases pos <;> simp_all [join, isMoved]

end Holding

namespace Ledger

variable {symbol id : Int} {h : Holding} {f : Int → Holding → Holding}

/-! ## The holding of a symbol -/

theorem lookup_map {β γ : Type} (l : List (Int × β)) (f : Int → β → γ) (id : Int) :
    (l.map fun e => (e.1, f e.1 e.2)).lookup id = (l.lookup id).map (f id) := by
  induction l with
  | nil => rfl
  | cons e l ih =>
    obtain ⟨k, b⟩ := e
    rw [map_cons, lookup_cons, lookup_cons]
    cases hk : id == k with
    | true =>
      obtain rfl : id = k := by simpa using hk
      rfl
    | false => exact ih

theorem get?_mapHoldings (l : Ledger) (f : Int → Holding → Holding) (id : Int) :
    (l.mapHoldings f).get? id = (l.get? id).map (f id) :=
  lookup_map l.holdings f id

theorem get?_put (l : Ledger) (symbol : Int) (h : Holding) (id : Int) :
    (l.put symbol h).get? id = if id = symbol then some h else l.get? id := by
  cases hget : l.get? symbol with
  | some old =>
    rw [put_of_get? hget, get?_mapHoldings]
    split
    · next heq => rw [heq, hget]; rfl
    · exact Option.map_id'
  | none =>
    show (l.put symbol h).holdings.lookup id = _
    rw [holdings_put hget, lookup_append]
    split
    next heq =>
      have hnone : l.holdings.lookup id = none := heq ▸ hget
      rw [hnone, heq]
      simp
    next hne =>
      have hlast : [(symbol, h)].lookup id = none := by
        rw [lookup_cons, beq_false_of_ne hne]
        rfl
      rw [hlast, or_none]
      rfl

theorem get?_release (l : Ledger) (scope id : Int) : (l.release scope).get? id =
      (l.get? id).map fun h => { h with active := h.active.filter (·.scope ≠ scope) } :=
  get?_mapHoldings l _ id

theorem get?_restore (l : Ledger) (s : Snapshot) (id : Int) :
    (l.restore s).get? id = (l.get? id).map fun h =>
      match s.lookup id with
      | some flow => { h with initialized := flow.initialized, movedAt := flow.movedAt }
      | none => h :=
  get?_mapHoldings l _ id

theorem get?_join (l : Ledger) (other : Snapshot) (id : Int) :
    (l.join other).get? id = (l.get? id).map fun h =>
      match other.lookup id with
      | some flow => h.join flow
      | none => h :=
  get?_mapHoldings l _ id

theorem lookup_snapshot (l : Ledger) (id : Int) :
    l.snapshot.lookup id = (l.get? id).map fun h => ⟨h.initialized, h.movedAt⟩ :=
  lookup_map l.holdings (fun _ h => (⟨h.initialized, h.movedAt⟩ : Flow)) id

theorem Sound.get?_of_mem (hs : l.Sound) {e : Int × Holding} (he : e ∈ l.holdings) :
    l.get? e.1 = some e.2 := by
  cases hget : l.get? e.1 with
  | none => exact absurd (List.mem_map_of_mem he) (not_mem_of_get? hget)
  | some h =>
    have heq := inj_on_of_nodup_map hs.nodup (mem_of_get? hget) he rfl
    rw [← heq]

theorem get?_of_access (hok : l.access symbol a = .ok l') :
    ∃ h h', l.get? symbol = some h ∧ h.access a = .ok h' ∧ l' = l.put symbol h' := by
  cases hget : l.get? symbol with
  | none =>
    rw [access_untracked hget] at hok
    cases hok
  | some h =>
    rw [access_tracked hget] at hok
    cases hacc : h.access a with
    | error e =>
      rw [hacc] at hok
      cases hok
    | ok h' =>
      rw [hacc] at hok
      exact ⟨h, h', rfl, hacc, (Except.ok.inj hok).symm⟩

/-! ## Tracked symbols -/

theorem isTracked_iff : l.isTracked id = true ↔ ∃ h, l.get? id = some h := isSome_iff_exists

theorem isTracked_mapHoldings (l : Ledger) (f : Int → Holding → Holding) (id : Int) :
    (l.mapHoldings f).isTracked id = l.isTracked id := by
  rw [isTracked, get?_mapHoldings, isSome_map]
  rfl

theorem isTracked_release (l : Ledger) (scope id : Int) :
    (l.release scope).isTracked id = l.isTracked id :=
  isTracked_mapHoldings l _ id

theorem isTracked_restore (l : Ledger) (s : Snapshot) (id : Int) :
    (l.restore s).isTracked id = l.isTracked id :=
  isTracked_mapHoldings l _ id

theorem isTracked_join (l : Ledger) (other : Snapshot) (id : Int) :
    (l.join other).isTracked id = l.isTracked id :=
  isTracked_mapHoldings l _ id

theorem isTracked_put (l : Ledger) (symbol : Int) (h : Holding) (id : Int) :
    (l.put symbol h).isTracked id = (decide (id = symbol) || l.isTracked id) := by
  rw [isTracked, get?_put]
  split
  · next heq => simp [heq]
  · next hne => simp [hne, isTracked]

/-! ## Records -/

open scoped Classical in
/-- The records of `l'` are those of `l`, of which some may be missing, but for records that were
made under scopes that satisfy `P`. -/
def Under (P : Int → Prop) (l l' : Ledger) : Prop :=
  ∀ id : Int, ((l'.active id).filter fun a => ¬ P a.scope).Sublist (l.active id)

section

variable {l'' : Ledger}

theorem under_of_sublist (h : ∀ id, (l'.active id).Sublist (l.active id)) : Under P l l' :=
  fun id => filter_sublist.trans (h id)

theorem Under.refl (l : Ledger) : Under P l l := under_of_sublist fun _ => .refl _

open scoped Classical in
theorem Under.mem (h : Under P l l') (ha : a ∈ l'.active id) : a ∈ l.active id ∨ P a.scope := by
  by_cases hp : P a.scope
  · exact .inr hp
  · exact .inl ((h id).subset (mem_filter.mpr ⟨ha, decide_eq_true hp⟩))

/-- Where no scope is of that kind, records have been taken away only. -/
theorem Under.sublist (h : Under (fun _ => False) l l') (id : Int) :
    (l'.active id).Sublist (l.active id) := by
  simpa using h id

open scoped Classical in
theorem Under.trans (h : Under P l l') (h' : Under P l' l'') : Under P l l'' := by
  intro id
  have hless := (h' id).filter fun a => decide (¬ P a.scope)
  simp only [List.filter_filter, Bool.and_self] at hless
  exact hless.trans (h id)

open scoped Classical in
theorem Under.mono {Q : Int → Prop} (hpq : ∀ scope, P scope → Q scope) (h : Under P l l') :
    Under Q l l' := by
  intro id
  refine List.Sublist.trans (monotone_filter_right _ fun a ha => ?_) (h id)
  exact decide_eq_true fun hp => of_decide_eq_true ha (hpq a.scope hp)

end

theorem active_of_get? (hget : l.get? id = some h) : l.active id = h.active := by
  rw [active, hget]

theorem active_put (l : Ledger) (symbol : Int) (h : Holding) (id : Int) :
    (l.put symbol h).active id = if id = symbol then h.active else l.active id := by
  unfold active
  rw [get?_put]
  by_cases hid : id = symbol <;> simp [hid]

theorem active_release (l : Ledger) (scope id : Int) :
    (l.release scope).active id = (l.active id).filter (·.scope ≠ scope) := by
  rw [active, active, get?_release]
  cases l.get? id <;> rfl

theorem under_mapHoldings (l : Ledger) (hf : ∀ id h, (f id h).active.Sublist h.active) :
    Under P l (l.mapHoldings f) := by
  refine under_of_sublist fun id => ?_
  rw [active, active, get?_mapHoldings]
  cases l.get? id with
  | none => exact .refl _
  | some h => exact hf id h

theorem under_release (l : Ledger) (scope : Int) : Under P l (l.release scope) :=
  under_mapHoldings l fun _ _ => filter_sublist

theorem under_restore (l : Ledger) (s : Snapshot) : Under P l (l.restore s) := by
  refine under_mapHoldings l fun id h => ?_
  split <;> exact .refl _

theorem under_join (l : Ledger) (other : Snapshot) : Under P l (l.join other) := by
  refine under_mapHoldings l fun id h => ?_
  split
  next flow _ =>
    rcases h.join_active flow with heq | heq
    · exact heq ▸ .refl _
    · exact heq ▸ nil_sublist _
  · exact .refl _

theorem under_declare (l : Ledger) (symbol : Int) (name : String) (mutable initialized : Bool) :
    Under P l (l.declare symbol name mutable initialized) := by
  refine under_of_sublist fun id => ?_
  rw [declare, active_put]
  split
  · exact nil_sublist _
  · exact .refl _

open scoped Classical in
theorem under_access (hok : l.access symbol a = .ok l') (hP : P a.scope) : Under P l l' := by
  obtain ⟨h, h', hget, hacc, rfl⟩ := get?_of_access hok
  obtain ⟨-, -, -, hrecords⟩ := Holding.access_status hacc
  intro id
  rw [active_put]
  split
  next heq =>
    rw [heq, active_of_get? hget]
    refine List.Sublist.trans (hrecords.filter _) ?_
    rw [filter_append, filter_singleton, decide_eq_false (not_not_intro hP)]
    simp [filter_sublist]
  · exact filter_sublist

/-- Once a scope is released, no new record under it is left. -/
theorem Under.release {scope : Int} (h : Under (fun s => s = scope ∨ P s) l l') :
    Under P l (l'.release scope) := by
  intro id
  refine List.Sublist.trans ?_ (h id)
  rw [active_release, List.filter_filter]
  refine monotone_filter_right _ fun a ha => ?_
  simp_all

/-! ## Moved variables -/

/-- A variable that was moved has no records. -/
def Spent (l : Ledger) : Prop :=
  ∀ (id : Int) (h : Holding), l.get? id = some h → h.isMoved = true → h.active = []

theorem spent_empty : Spent {} := fun _ _ hget => by cases hget

theorem Spent.mapHoldings (hs : l.Spent)
    (hf : ∀ id h, l.get? id = some h → (h.isMoved = true → h.active = []) →
      (f id h).isMoved = true → (f id h).active = []) : (l.mapHoldings f).Spent := by
  intro id h' hget
  rw [get?_mapHoldings] at hget
  obtain ⟨h, hh, rfl⟩ := map_eq_some_iff.mp hget
  exact hf id h hh (hs id h hh)

theorem Spent.put (hs : l.Spent) (symbol : Int) (hh : h.isMoved = true → h.active = []) :
    (l.put symbol h).Spent := by
  intro id h' hget
  rw [get?_put] at hget
  split at hget
  · obtain rfl := some.inj hget
    exact hh
  · exact hs id h' hget

theorem Spent.release (hs : l.Spent) (scope : Int) : (l.release scope).Spent := by
  refine hs.mapHoldings fun id h _ hh hm => ?_
  rw [hh hm, filter_nil]

theorem Spent.access (hs : l.Spent) (hok : l.access symbol a = .ok l') : l'.Spent := by
  obtain ⟨h, h', -, hacc, rfl⟩ := get?_of_access hok
  exact hs.put symbol (Holding.access_status hacc).2.2.1

theorem Spent.join (hs : l.Spent) (other : Snapshot) : (l.join other).Spent := by
  refine hs.mapHoldings fun id h _ hh => ?_
  split
  · exact h.join_spent hh _
  · exact hh

/-- **Going back.** If no variable has got records since, none that was moved has any. -/
theorem Spent.restore {before : Ledger} (hs : l.Spent) (hb : before.Spent)
    (hless : Under (fun _ => False) before l) : (l.restore before.snapshot).Spent := by
  refine hs.mapHoldings fun id h hget hh => ?_
  rw [lookup_snapshot]
  cases hbefore : before.get? id with
  | none => exact hh
  | some old =>
    intro hm
    have hnone : before.active id = [] := by
      rw [active_of_get? hbefore]
      exact hb id old hbefore hm
    have hnow : l.active id = [] := sublist_nil.mp (hnone ▸ hless.sublist id)
    rwa [active_of_get? hget] at hnow

/-! ## The last look -/

/-- The last look finds no fault with a holding that is shared and spent as it should be. -/
theorem holdingFaults_eq_nil (hshared : h.Shared)
    (hspent : h.isMoved = true → h.active = [])
    (hscope : ∀ a ∈ h.active, isTemporary a.scope = false) :
    holdingFaults h = [] := by
  have hmoved : (h.isMoved && !h.active.isEmpty) = false := by
    cases hm : h.isMoved with
    | false => rfl
    | true => rw [hspent hm]; rfl
  have hwriter : (h.writer?.isSome && decide (1 < h.active.length)) = false := by
    rcases hshared with hread | ⟨a, ha⟩
    · rw [Holding.writer?_eq_none.mpr hread]
      rfl
    · rw [ha]
      simp
  have htemp : (h.active.filter fun a => isTemporary a.scope) = [] := by
    rw [filter_eq_nil_iff]
    intro a ha
    rw [hscope a ha]
    exact Bool.false_ne_true
  unfold holdingFaults
  simp only [hmoved, hwriter, htemp, Bool.false_eq_true, if_false, map_nil, append_nil]

theorem Sound.validate_eq_nil (hs : l.Sound) (hspent : l.Spent)
    (hscope : ∀ id, ∀ a ∈ l.active id, isTemporary a.scope = false) : l.validate = [] := by
  unfold validate
  rw [flatMap_eq_nil_iff]
  intro e he
  have hmem : e ∈ l.holdings := mem_mergeSort.mp he
  have hget := hs.get?_of_mem hmem
  refine holdingFaults_eq_nil (hs.shared e hmem) (hspent e.1 e.2 hget) fun a ha => ?_
  exact hscope e.1 a (by rwa [active_of_get? hget])

end Ledger

end UnitCheck
