import Mathlib.Data.List.Nodup
import UnitCheck.Ownership.Ledger
import UnitCheck.Proofs.Outcome

/-!
# One writer or many readers

A ledger is used by calls in any order. Whatever the calls are, and whichever accesses are refused,
the records of a variable are either readers only or one single record.

* `Holding.Shared` — this property of one variable; each change that a call makes to a holding keeps
  it.
* `Ledger.Sound` — it holds of every variable, and no symbol is kept twice. One call keeps this
  (`Sound.perform`), and so do all runs (`sound_after`).
* `Holding.accessInPlace`, `Ledger.event` — an access as the steps that check and change a holding
  in place. A refused access stops before the first change, so that it leaves what was there
  (`accessInPlace_run`, `Sound.event_run`).
-/

namespace UnitCheck

open List

variable {a : Access} {l : Ledger} {symbol : Int}

theorem AccessKind.isExclusive_eq_false {k : AccessKind} :
    k.isExclusive = false ↔ k ≠ .write ∧ k ≠ .borrowMutably := by
  cases k <;> simp [isExclusive]

namespace Holding

variable {h : Holding} {h' : Holding}

/-! ## The records of one variable -/

/-- Readers only, or a single record. -/
def Shared (h : Holding) : Prop :=
  (∀ a ∈ h.active, a.kind.isExclusive = false) ∨ ∃ a, h.active = [a]

theorem writer?_eq_none : h.writer? = none ↔ ∀ a ∈ h.active, a.kind.isExclusive = false := by
  simp [writer?]

theorem reader?_eq_none : h.reader? = none ↔ ∀ a ∈ h.active, a.kind.isExclusive = true := by
  simp [reader?]

/-- With neither a reader nor a writer there is no record. -/
theorem active_eq_nil (hr : h.reader? = none) (hw : h.writer? = none) : h.active = [] := by
  rw [eq_nil_iff_forall_not_mem]
  intro a ha
  have hexcl := reader?_eq_none.mp hr a ha
  rw [writer?_eq_none.mp hw a ha] at hexcl
  cases hexcl

theorem Shared.of_sublist (hs : h.Shared) (hsub : h'.active.Sublist h.active) : h'.Shared := by
  rcases hs with hs | ⟨a, ha⟩
  · exact .inl fun a ha => hs a (hsub.subset ha)
  · rw [ha, sublist_singleton] at hsub
    rcases hsub with hnone | hone
    · exact .inl (by simp [hnone])
    · exact .inr ⟨a, hone⟩

theorem Shared.of_active_eq (hs : h.Shared) (heq : h'.active = h.active) : h'.Shared :=
  hs.of_sublist (heq ▸ List.Sublist.refl _)

theorem recordAlone_eq (hok : h.recordAlone a = .ok h') : h' = h.record a ∧ h.active = [] := by
  unfold recordAlone at hok
  split at hok
  · cases hok
  · cases hok
  · next hr hw => exact ⟨(Except.ok.inj hok).symm, active_eq_nil hr hw⟩

/-- What an access needs that is granted, and what it leaves. -/
inductive Granted (h : Holding) (a : Access) : Holding → Prop where
  | shared (there : h.movedAt = none) (kind : a.kind = .read ∨ a.kind = .borrow)
    (init : h.initialized = true) (free : h.writer? = none) : Granted h a (h.record a)
  | alone (there : h.movedAt = none) (kind : a.kind = .borrowMutably) (init : h.initialized = true)
    (free : h.active = []) : Granted h a (h.record a)
  | write (there : h.movedAt = none) (kind : a.kind = .write)
    (again : h.initialized = true → h.mutable = true) (free : h.active = []) :
    Granted h a { h.record a with initialized := true }
  | move (there : h.movedAt = none) (kind : a.kind = .move) (init : h.initialized = true) :
    Granted h a { h with movedAt := some a.pos, active := [] }

/-- What it takes for an access to be granted, by its kind. -/
theorem granted_of_access (hok : h.access a = .ok h') : h.Granted a h' := by
  unfold access at hok
  split at hok
  · cases hok
  next hthere =>
    -- each kind has its own tests, and a constructor that collects their outcomes
    cases hk : a.kind <;> simp only [hk] at hok
    case read | borrow =>
      split at hok
      · cases hok
      next hinit =>
        split at hok
        · cases hok
        next hw =>
          obtain rfl := Except.ok.inj hok
          exact .shared hthere (by simp [hk]) (by simpa using hinit) hw
    case borrowMutably =>
      split at hok
      · cases hok
      next hinit =>
        split at hok
        · cases hok
        obtain ⟨rfl, hnone⟩ := recordAlone_eq hok
        exact .alone hthere hk (by simpa using hinit) hnone
    case write =>
      split at hok
      · cases hok
      next hfirst =>
        cases hrec : h.recordAlone a with
        | error e =>
          rw [hrec] at hok
          cases hok
        | ok h₁ =>
          rw [hrec] at hok
          obtain ⟨rfl, hnone⟩ := recordAlone_eq hrec
          obtain rfl := Except.ok.inj hok
          exact .write hthere hk (by simpa using hfirst) hnone
    case move =>
      split at hok
      · cases hok
      next hinit =>
        obtain rfl := Except.ok.inj hok
        exact .move hthere hk (by simpa using hinit)
    case unlisted => cases hok

/-- An access that is granted keeps the rule. -/
theorem Shared.access (hok : h.access a = .ok h') : h'.Shared := by
  cases granted_of_access hok with
  | shared _ hkind _ hw =>
    refine .inl fun b hb => ?_
    rcases mem_append.mp hb with hb | hb
    · exact writer?_eq_none.mp hw b hb
    · rw [mem_singleton.mp hb, AccessKind.isExclusive_eq_false]
      rcases hkind with hkind | hkind <;> simp [hkind]
  | alone _ _ _ hnone => exact .inr ⟨a, by simp [record, hnone]⟩
  | write _ _ _ hnone => exact .inr ⟨a, by simp [record, hnone]⟩
  | move => exact .inl (by simp)

theorem Shared.join (hs : h.Shared) (other : Flow) : (h.join other).Shared := by
  unfold Holding.join
  dsimp only
  split
  · exact .inl (by simp)
  · exact hs.of_active_eq rfl

/-! ## An access in place -/

/-- Stops if anyone has the variable. -/
def checkAlone (a : Access) : ExceptT AccessFault (StateM Holding) Unit := do
  let h ← get
  if let some other := h.reader? then throw (.heldByReader h.name a.kind other)
  if let some other := h.writer? then throw (.heldByWriter h.name a.kind other)

/-- An access as a sequence of checks and changes, made one by one to the holding itself. -/
def accessInPlace (a : Access) : ExceptT AccessFault (StateM Holding) Unit := do
  let h ← get
  if let some movedAt := h.movedAt then throw (.moved h.name movedAt)
  match a.kind with
  | .read | .borrow =>
    if !h.initialized then throw (.uninitialized h.name a.kind)
    if let some other := h.writer? then throw (.usedWhileExclusive h.name other)
    modify (·.record a)
  | .borrowMutably =>
    if !h.initialized then throw (.uninitialized h.name a.kind)
    if !h.mutable then throw (.notMutable h.name)
    checkAlone a
    modify (·.record a)
  | .write =>
    if h.initialized && !h.mutable then throw (.assignedTwice h.name)
    checkAlone a
    modify ({ · with initialized := true })
    modify (·.record a)
  | .move =>
    if !h.initialized then throw (.uninitialized h.name a.kind)
    modify ({ · with active := [] })
    modify ({ · with movedAt := some a.pos })
  | .unlisted n => throw (.unknownKind (.unlisted n))

/-- What an outcome leaves in place of a holding: the changed one, or after a fault the old one. -/
def outcome (h : Holding) : Except AccessFault Holding → Except AccessFault Unit × Holding
  | .ok h' => (.ok (), h')
  | .error e => (.error e, h)

theorem checkAlone_run (h : Holding) (a : Access) :
    (checkAlone a).run.run h = ((h.recordAlone a).map fun _ => (), h) := by
  simp only [checkAlone, recordAlone]
  show (match h.reader? with | some _ => _ | _ => _ : ExceptT _ (StateM Holding) Unit).run.run h = _
  cases h.reader? with
  | some other => rfl
  | none =>
    cases h.writer? with
    | some other => rfl
    | none => rfl

/-- **A refused access has changed nothing.** The checks of an access come before its changes, so
that the access in place is `access`. -/
theorem accessInPlace_run (h : Holding) (a : Access) :
    (accessInPlace a).run.run h = h.outcome (h.access a) := by
  obtain ⟨name, mutable, initialized, movedAt, active⟩ := h
  obtain ⟨kind, scope, pos, lifetime⟩ := a
  unfold accessInPlace access
  rw [run_bind]
  show StateT.run (ExceptT.run _) _ = _
  -- the checks come in the order of `access`; where one of them fails, both sides end at once
  cases movedAt with
  | some movedAt => rfl
  | none =>
    cases kind with
    | read | borrow =>
      cases initialized with
      | false => rfl
      | true =>
        simp only [Bool.not_true, Bool.false_eq_true, if_false]
        cases Holding.writer? _ <;> rfl
    | borrowMutably =>
      cases initialized with
      | false => rfl
      | true =>
        cases mutable with
        | false => rfl
        | true =>
          simp only [Bool.not_true, Bool.false_eq_true, if_false]
          rw [run_bind, checkAlone_run]
          cases hrec : recordAlone _ _ with
          | error e => rfl
          | ok h' =>
            rw [(recordAlone_eq hrec).1]
            rfl
    | write =>
      cases initialized && !mutable with
      | true => rfl
      | false =>
        simp only [Bool.false_eq_true, if_false]
        rw [run_bind, checkAlone_run]
        cases hrec : recordAlone _ _ with
        | error e => rfl
        | ok h' =>
          rw [(recordAlone_eq hrec).1]
          rfl
    | move => cases initialized <;> rfl
    | unlisted n => rfl

end Holding

namespace Ledger

variable {h : Holding}

/-! ## All variables -/

/-- No symbol is kept twice, and each variable has readers only or a single record. -/
structure Sound (l : Ledger) : Prop where
  nodup : (l.holdings.map (·.1)).Nodup
  shared : ∀ e ∈ l.holdings, e.2.Shared

theorem sound_empty : Sound {} where
  nodup := nodup_nil
  shared := by simp

theorem mem_of_get? (hget : l.get? symbol = some h) : (symbol, h) ∈ l.holdings := by
  obtain ⟨before, behind, hsplit, -⟩ := lookup_eq_some_iff.mp hget
  rw [hsplit]
  simp

theorem not_mem_of_get? (hget : l.get? symbol = none) : symbol ∉ l.holdings.map (·.1) := by
  intro hmem
  obtain ⟨e, he, rfl⟩ := List.mem_map.mp hmem
  have hne := lookup_eq_none_iff.mp hget e he
  simp at hne

/-- What keeps the rule for each holding keeps it for all. -/
theorem Sound.mapHoldings (hs : l.Sound) {f : Int → Holding → Holding}
    (hf : ∀ id h, h.Shared → (f id h).Shared) : (l.mapHoldings f).Sound where
  nodup := by
    have hkeys : (l.mapHoldings f).holdings.map (·.1) = l.holdings.map (·.1) := by
      simp [Ledger.mapHoldings]
    rw [hkeys]
    exact hs.nodup
  shared := by
    intro e he
    obtain ⟨⟨id, h⟩, hmem, rfl⟩ := List.mem_map.mp he
    exact hf id h (hs.shared _ hmem)

theorem put_of_get? {old : Holding} (hget : l.get? symbol = some old) (h : Holding) :
    l.put symbol h = l.mapHoldings fun id old => if id = symbol then h else old := by
  rw [put, hget, Option.isSome_some, if_pos rfl]

theorem holdings_put (hget : l.get? symbol = none) (h : Holding) :
    (l.put symbol h).holdings = l.holdings ++ [(symbol, h)] := by
  rw [put, hget, Option.isSome_none, if_neg Bool.false_ne_true]

theorem Sound.put (hs : l.Sound) (symbol : Int) (hh : h.Shared) : (l.put symbol h).Sound := by
  cases hget : l.get? symbol with
  | some old =>
    rw [put_of_get? hget]
    refine hs.mapHoldings fun id old hold => ?_
    split
    · exact hh
    · exact hold
  | none =>
    have hnew := not_mem_of_get? hget
    constructor
    · rw [holdings_put hget, map_append, map_singleton, ← concat_eq_append, nodup_concat]
      exact ⟨hnew, hs.nodup⟩
    · intro e he
      rw [holdings_put hget, mem_append, mem_singleton] at he
      rcases he with he | rfl
      · exact hs.shared e he
      · exact hh

/-- To put back what is there changes nothing. -/
theorem Sound.put_self (hs : l.Sound) (hget : l.get? symbol = some h) : l.put symbol h = l := by
  have hkept : ∀ e ∈ l.holdings, (e.1, if e.1 = symbol then h else e.2) = e := by
    intro e he
    split
    next hsym =>
      rw [hsym]
      exact inj_on_of_nodup_map hs.nodup (mem_of_get? hget) he hsym.symm
    · rfl
  rw [put_of_get? hget, Ledger.mapHoldings, map_congr_left hkept, List.map_id']

theorem Sound.release (hs : l.Sound) (scope : Int) : (l.release scope).Sound :=
  hs.mapHoldings fun _ _ hh => hh.of_sublist filter_sublist

theorem Sound.restore (hs : l.Sound) (s : Snapshot) : (l.restore s).Sound := by
  refine hs.mapHoldings fun id h hh => ?_
  split
  · exact hh.of_active_eq rfl
  · exact hh

theorem Sound.join (hs : l.Sound) (other : Snapshot) : (l.join other).Sound := by
  refine hs.mapHoldings fun id h hh => ?_
  split
  · exact hh.join _
  · exact hh

theorem Sound.active (hs : l.Sound) (symbol : Int) :
    (∀ a ∈ l.active symbol, a.kind.isExclusive = false) ∨ ∃ a, l.active symbol = [a] := by
  unfold Ledger.active
  cases hget : l.get? symbol with
  | none => exact .inl (by simp)
  | some h => exact hs.shared _ (mem_of_get? hget)

/-! ## An access in place -/

/-- Applies an access to the holding of a symbol where it stands, and keeps what the access leaves
there even if it is refused. -/
def event (symbol : Int) (a : Access) : ExceptT AccessFault (StateM Ledger) Unit := do
  match (← getThe Ledger).get? symbol with
  | none => throw (.untracked symbol)
  | some h =>
    let (result, h') := (Holding.accessInPlace a).run.run h
    modify (·.put symbol h')
    MonadExcept.ofExcept result

theorem access_untracked (hget : l.get? symbol = none) (a : Access) :
    l.access symbol a = .error (.untracked symbol) := by
  rw [access, hget]

theorem access_tracked (hget : l.get? symbol = some h) (a : Access) :
    l.access symbol a = (h.access a).map (l.put symbol) := by
  rw [access, hget]

theorem event_untracked (hget : l.get? symbol = none) (a : Access) :
    (event symbol a).run.run l = (.error (.untracked symbol), l) := by
  unfold event
  rw [run_bind]
  show StateT.run (ExceptT.run (match l.get? symbol with | none => _ | some h => _)) l = _
  rw [hget]
  rfl

theorem event_tracked (hget : l.get? symbol = some h) (a : Access) : (event symbol a).run.run l =
      match h.access a with
      | .ok h' => (.ok (), l.put symbol h')
      | .error e => (.error e, l.put symbol h) := by
  unfold event
  rw [run_bind]
  show StateT.run (ExceptT.run (match l.get? symbol with | none => _ | some h => _)) l = _
  rw [hget]
  dsimp only
  rw [Holding.accessInPlace_run]
  cases h.access a <;> rfl

/-- **What an access in place leaves behind**: the ledger that `access` gives, or if it is refused
the ledger there was. -/
theorem Sound.event_run (hs : l.Sound) (symbol : Int) (a : Access) : (event symbol a).run.run l =
      match l.access symbol a with
      | .ok l' => (.ok (), l')
      | .error e => (.error e, l) := by
  cases hget : l.get? symbol with
  | none => rw [event_untracked hget, access_untracked hget]
  | some h =>
    rw [event_tracked hget, access_tracked hget, hs.put_self hget]
    cases h.access a <;> rfl

theorem Sound.access {l' : Ledger} (hs : l.Sound)
    (hok : l.access symbol a = .ok l') : l'.Sound := by
  cases hget : l.get? symbol with
  | none =>
    rw [access_untracked hget] at hok
    cases hok
  | some h =>
    rw [access_tracked hget] at hok
    cases hacc : h.access a with
    | error e =>
      rw [hacc] at hok
      cases hok
    | ok h' =>
      rw [hacc] at hok
      obtain rfl := Except.ok.inj hok
      exact hs.put symbol (.access hacc)

theorem Sound.event (hs : l.Sound) (symbol : Int) (a : Access) :
    ((event symbol a).run.run l).2.Sound := by
  rw [hs.event_run]
  split
  · next hok => exact hs.access hok
  · exact hs

/-! ## Runs -/

/-- A call of a ledger. A snapshot need not have been taken of the ledger it is given to. -/
inductive Call where
  | declare (symbol : Int) (name : String) (mutable initialized : Bool)
  | event (symbol : Int) (a : Access)
  | release (scope : Int)
  | temporary
  | snapshot
  | restore (s : Snapshot)
  | join (other : Snapshot)
  deriving Repr, Inhabited

/-- The ledger that a call leaves behind. -/
def Call.perform (l : Ledger) : Call → Ledger
  | declare symbol name mutable initialized => l.declare symbol name mutable initialized
  | event symbol a => ((Ledger.event symbol a).run.run l).2
  | release scope => l.release scope
  | temporary => l.temporary.2
  | snapshot => l
  | restore s => l.restore s
  | join other => l.join other

/-- The ledger after calls on one that keeps no variable. -/
def after (calls : List Call) : Ledger := calls.foldl Call.perform {}

theorem Sound.perform (hs : l.Sound) (c : Call) : (c.perform l).Sound := by
  cases c with
  | declare symbol name mutable initialized => exact hs.put symbol (.inl (by simp))
  | event symbol a => exact hs.event symbol a
  | release scope => exact hs.release scope
  | temporary => exact ⟨hs.nodup, hs.shared⟩
  | snapshot => exact hs
  | restore s => exact hs.restore s
  | join other => exact hs.join other

theorem Sound.foldl (hs : l.Sound) (calls : List Call) : (calls.foldl Call.perform l).Sound := by
  induction calls generalizing l with
  | nil => exact hs
  | cons c calls ih => exact ih (hs.perform c)

theorem sound_after (calls : List Call) : (after calls).Sound := sound_empty.foldl calls

/-! ## The rule -/

/-- **One writer or many readers.** After any calls, the records of a symbol hold no write and no
mutable borrow, or there is just one of them; and an access made in place is granted or refused as
`access` says, a refused one leaving the whole ledger as it was. -/
theorem single_writer_or_many_readers (calls : List Call) (symbol : Int) :
    ((∀ a ∈ (after calls).active symbol, a.kind ≠ .write ∧ a.kind ≠ .borrowMutably) ∨
        ∃ a, (after calls).active symbol = [a]) ∧
      ∀ a : Access, (event symbol a).run.run (after calls) =
        match (after calls).access symbol a with
        | .ok l => (.ok (), l)
        | .error e => (.error e, after calls) := by
  have hs := sound_after calls
  constructor
  · rcases hs.active symbol with hread | hone
    · exact .inl fun a ha => AccessKind.isExclusive_eq_false.mp (hread a ha)
    · exact .inr hone
  · exact fun a => hs.event_run symbol a

/-- Two readers, and a write that is refused in between. -/
def sampleCalls : List Call :=
  [.declare 0 "x" true true, .event 0 ⟨.borrow, 1, .unknown, ""⟩,
    .event 0 ⟨.write, 1, .unknown, ""⟩, .event 0 ⟨.read, -2, .unknown, ""⟩]

/-- Two readers of one variable, which refuse a writer. -/
theorem single_writer_or_many_readers_sample :
    let readers : List Access := [⟨.borrow, 1, .unknown, ""⟩, ⟨.read, -2, .unknown, ""⟩]
    (after sampleCalls).active 0 = readers ∧
      (∀ a ∈ readers, a.kind ≠ .write ∧ a.kind ≠ .borrowMutably) ∧
      (event 0 ⟨.borrowMutably, 1, .unknown, ""⟩).run.run (after sampleCalls) =
        (.error (.heldByReader "x" .borrowMutably ⟨.borrow, 1, .unknown, ""⟩),
          after sampleCalls) := by
  intro readers
  obtain ⟨hactive, hevent⟩ := single_writer_or_many_readers sampleCalls 0
  have hreaders : (after sampleCalls).active 0 = readers := by rfl
  refine ⟨hreaders, ?_, hevent _⟩
  rcases hactive with hread | ⟨a, hone⟩
  · rwa [hreaders] at hread
  · rw [hreaders] at hone
    simp [readers] at hone

end Ledger

end UnitCheck
