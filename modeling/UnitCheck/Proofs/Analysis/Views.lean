import UnitCheck.Proofs.Analysis.Reports
import UnitCheck.Proofs.Ownership.Courses

/-!
# Views of a store

A checker keeps the variables of scopes that it has left, so its ledger knows more than what is in
view. `Agrees σ s` — the view `σ` is what the ledger of `s` knows of the variables that can be seen
from the current scope. Each step of a check of statements comes with its step on views: accesses
and declarations (`Agrees.evaluates`), entering and leaving a scope (`Agrees.opened`,
`Agrees.left`), and going back to a snapshot or joining one (`Agrees.restore`, `Agrees.join`).
-/

namespace UnitCheck

open Relation List Option

/-! ## Snapshots -/

/-- The status in a snapshot. -/
def Flow.status (f : Flow) : Status := ⟨f.initialized, f.movedAt.isSome⟩

variable {i : Nat}

namespace Ledger

theorem status_snapshot (l : Ledger) (i : Nat) :
    (l.snapshot.lookup (i : Int)).map Flow.status = l.status i := by
  rw [lookup_snapshot, status, Option.map_map]
  rfl

theorem status_restore (l : Ledger) (s : Snapshot) (i : Nat) : (l.restore s).status i =
      (l.status i).map fun st => ((s.lookup (i : Int)).map Flow.status).getD st := by
  rw [status, status, get?_restore, Option.map_map, Option.map_map]
  congr 1
  funext h
  cases hlook : s.lookup (i : Int) with
  | none => simp
  | some flow =>
    simp only [Function.comp_apply, map_some, getD_some]
    rfl

theorem status_join (l : Ledger) (s : Snapshot) (i : Nat) :
    (l.join s).status i = (l.status i).map fun st =>
      (((s.lookup (i : Int)).map Flow.status).map st.join).getD st := by
  rw [status, status, get?_join, Option.map_map, Option.map_map]
  congr 1
  funext h
  cases hlook : s.lookup (i : Int) with
  | none => simp
  | some flow =>
    simp only [Function.comp_apply, map_some, getD_some]
    exact h.join_status flow

theorem status_eq_none_iff {l : Ledger} : l.status i = none ↔ l.isTracked i = false := by
  rw [status, isTracked, map_eq_none_iff, isSome_eq_false_iff, isNone_iff_eq_none]

end Ledger

/-! ## Scopes -/

namespace Table

theorem Sound.seesSymbol_of_grows {t t' : Table} (h : t.Sound) (hg : t.Grows t') {c : Nat}
    (hc : c < t.scopes.size)
    (hi : i < t.symbols.size) (hs : t'.SeesSymbol c i) : t.SeesSymbol c i := by
  have hy := Array.getElem?_eq_getElem hi
  obtain ⟨y', hy', hsees⟩ := hs
  obtain ⟨y'', hy'', hst⟩ := hg.symbol hy
  obtain rfl := mem_unique hy' hy''
  rw [hst.scope_eq] at hsees
  exact ⟨_, hy, h.sees_of_grows hg hc (h.links hy).home_lt hsees⟩

/-- From a scope one sees what is inside it and what is seen from its parent. -/
theorem Sees.up {t : Table} {c p : Nat} (h : t.Sees c i) (hp : t.Parent c p) (hi : ¬ t.Inside i c) :
    t.Sees p i := by
  obtain ⟨e, hce, hie⟩ := h
  rcases hce.cases_head with rfl | ⟨q, hq, hqe⟩
  · exact absurd (ReflTransGen.mono (fun _ _ => MemberOf.parent) i c hie) hi
  · obtain rfl := parent_unique hp hq
    exact ⟨e, hqe, hie⟩

end Table

/-- What the ledger knows of the variables that can be seen; others are not in view. -/
structure Store.Agrees (s : Store) (σ : View) : Prop where
  seen : ∀ i, s.table.SeesSymbol s.table.current i → σ i = s.ledger.status i
  tracked : ∀ i, s.ledger.status i = none → σ i = none

namespace Store

variable {s s' : Store} {σ τ : View} {P : Int → Prop} {evs : List VarEvent}

theorem agrees_status (s : Store) : s.Agrees s.ledger.status := ⟨fun _ _ => rfl, fun _ h => h⟩

/-- A variable that was not there yet is not in view. -/
theorem Agrees.new (ha : s.Agrees σ) (h : s.Good) (hi : ¬ i < s.table.symbols.size) :
    s.ledger.status i = none ∧ σ i = none := by
  have hstatus : s.ledger.status i = none := by
    rw [Ledger.status_eq_none_iff, ← Bool.not_eq_true]
    intro ht
    obtain ⟨j, heq, hj⟩ := h.tracked_lt ht
    omega
  exact ⟨hstatus, ha.tracked i hstatus⟩

/-- What is seen later has been seen before, or is new. -/
theorem Agrees.seen_later (ha : s.Agrees σ) (h : s.Good) (hg : s.table.Grows s'.table)
    (hi : s'.table.SeesSymbol s.table.current i) : σ i = s.ledger.status i := by
  by_cases hlt : i < s.table.symbols.size
  · exact ha.seen i (h.table.seesSymbol_of_grows hg h.table.current_lt hlt hi)
  · obtain ⟨hstatus, hσ⟩ := ha.new h hlt
    rw [hstatus, hσ]

/-! ## Events -/

theorem agrees_update {V : Nat → Prop} {st : Nat → Option Status} (hseen : ∀ j, V j → σ j = st j)
    (hnone : ∀ j, st j = none → σ j = none) (i : Nat) (x : Status) :
    (∀ j, V j → Function.update σ i (some x) j = Function.update st i (some x) j) ∧
      ∀ j, Function.update st i (some x) j = none → Function.update σ i (some x) j = none := by
  simp only [Function.update_apply]
  constructor
  · intro j hj
    rw [hseen j hj]
  · intro j hj
    split at hj
    · cases hj
    · next hne => rw [if_neg hne, hnone j hj]

/-- The events of a step are granted to the view, and take it to where the ledger is. -/
theorem agrees_trace {V F : Nat → Prop} {st st' : Nat → Option Status} (ht : Trace V F st evs st')
    (hseen : ∀ i, V i → σ i = st i) (hnone : ∀ i, st i = none → σ i = none) :
    View.Grants σ evs.reverse ∧ (∀ i, V i → View.after σ evs.reverse i = st' i) ∧
      ∀ i, st' i = none → View.after σ evs.reverse i = none := by
  induction ht with
  | nil => exact ⟨trivial, hseen, hnone⟩
  | @accessed evs st' i x kind _ hi known allowed _ ih =>
    obtain ⟨hg, hs, hn⟩ := ih
    have hx := (hs i hi).trans known
    rw [reverse_cons, View.grants_append, View.after_append]
    refine ⟨⟨hg, ⟨⟨x, hx, allowed⟩, fun _ _ heq => by cases heq⟩, trivial⟩, ?_⟩
    have hstep : View.after (View.after σ evs.reverse) [.accessed i kind] =
        Function.update (View.after σ evs.reverse) i (some (x.after kind)) := by
      show View.step (View.after σ evs.reverse) (.accessed i kind) = _
      rw [View.step, hx]
      rfl
    rw [hstep]
    exact agrees_update hs hn i (x.after kind)
  | @declared evs st' i initialized _ new ih =>
    obtain ⟨hg, hs, hn⟩ := ih
    rw [reverse_cons, View.grants_append, View.after_append]
    refine ⟨⟨hg, ⟨trivial, fun j init heq => ?_⟩, trivial⟩, agrees_update hs hn i _⟩
    obtain ⟨rfl, -⟩ := VarEvent.declared.inj heq
    exact hn i new

/-- The events by which a store came to be another, first to last. -/
def eventsTo (s s' : Store) : List VarEvent :=
  (s'.trail.take (s'.trail.length - s.trail.length)).reverse

theorem eventsTo_of_trail (h : s'.trail = evs ++ s.trail) : s.eventsTo s' = evs.reverse := by
  rw [eventsTo, h, length_append, Nat.add_sub_cancel, take_left]

theorem Agrees.evaluates {ρ : Rights} (ha : s.Agrees σ) (h : s.Good) (he : s.Evaluates ρ s') :
    View.Grants σ (s.eventsTo s') ∧ s'.Agrees (View.after σ (s.eventsTo s')) := by
  obtain ⟨evs, htrail, htrace⟩ := he.events
  have hseen : ∀ i, s'.table.SeesSymbol s'.table.current i → σ i = s.ledger.status i := by
    intro i hi
    rw [he.current] at hi
    exact ha.seen_later h he.table hi
  obtain ⟨hg, hs, hn⟩ := agrees_trace htrace hseen ha.tracked
  rw [eventsTo_of_trail htrail]
  exact ⟨hg, hs, hn⟩

/-! ## Scopes -/

/-- No variable belongs to a scope that has just been opened. -/
theorem Agrees.opened (ha : s.Agrees σ) (h : s.Good) (kind : ScopeKind) :
    (s.opened kind).Agrees σ where
  seen := by
    intro i hi
    have hd := descends_opened h kind
    by_cases hlt : i < s.table.symbols.size
    · obtain ⟨y, hy, hsees⟩ := hi
      have hy' : s.table.symbols[i]? = some y := hy
      refine ha.seen i ⟨y, hy', ?_⟩
      have hhome := (h.table.links hy').home_lt
      have houter := hsees.up hd.parent fun hin => ?_
      · exact h.table.sees_of_grows hd.table h.table.current_lt hhome houter
      · exact absurd (hd.good.table.inside_le hin) (Nat.not_le_of_lt hhome)
    · obtain ⟨hstatus, hσ⟩ := ha.new h hlt
      exact hσ.trans hstatus.symm
  tracked := ha.tracked

/-- A scope is left, and with it the variables that were declared in it. -/
theorem Agrees.left {kind : ScopeKind} (hk : kind.holdsMembers = false) (ha : s.Agrees σ)
    (h : s.Good) (h' : s'.Good) (hr : (s.opened kind).After s') (ha' : s'.Agrees τ) :
    (s'.left s.table.current).Agrees (View.within σ τ) where
  seen := by
    intro i hi
    have hd := descends_opened h kind
    have hparent := hd.parent_after hr
    have hinner : s'.table.SeesSymbol s'.table.current i := by
      obtain ⟨y, hy, hsees⟩ := hi
      exact ⟨y, hy, hsees.of_inside (.single hparent)⟩
    show View.within σ τ i = (s'.ledger.release _).status i
    rw [Ledger.status_release, ← ha'.seen i hinner, View.within]
    cases hσ : σ i with
    | some st => rfl
    | none =>
      -- a variable that was not in view was declared inside, and cannot be seen from outside
      show none = τ i
      rw [ha'.seen i hinner, eq_comm, Ledger.status_eq_none_iff, ← Bool.not_eq_true]
      intro ht
      rcases hr.fresh ht with hold | ⟨y, hy, hin⟩
      · have hstatus := ha.seen_later h (hd.table.trans hr.table) hi
        rw [hσ, eq_comm, Ledger.status_eq_none_iff] at hstatus
        exact Bool.false_ne_true (hstatus.symm.trans hold)
      · obtain ⟨x, hx, hxp, hxk⟩ := hr.table.scope (s.table.entered_scope kind)
        obtain ⟨y', hy', hsees⟩ := hi
        obtain rfl := mem_unique hy hy'
        exact h'.table.not_sees_below hx hxp (hxk ▸ hk) hin hsees
  tracked := by
    intro i hi
    have hi : (s'.ledger.release _).status i = none := hi
    rw [Ledger.status_release] at hi
    rw [View.within, ha'.tracked i hi]
    cases σ i <;> rfl

/-! ## Branches -/

section

variable {before : Store}

/-- What is known again once a store has gone back to a snapshot. -/
theorem Agrees.restore (hb : before.Good) (hab : before.Agrees τ) (hr : before.Reaches P s)
    (ha : s.Agrees σ) (hdom : ∀ i, τ i = none → σ i = none) :
    { s with ledger := s.ledger.restore before.ledger.snapshot }.Agrees τ where
  seen := by
    intro i hi
    have hτ := hab.seen_later hb hr.table (hr.current ▸ hi)
    rw [Ledger.status_restore, Ledger.status_snapshot, hτ]
    cases hst : before.ledger.status i with
    | none =>
      rw [← ha.seen i hi, hdom i (hτ.trans hst)]
      rfl
    | some st =>
      have hsome : s.ledger.status i ≠ none := by
        rw [Ne, Ledger.status_eq_none_iff, Bool.not_eq_false]
        refine hr.tracked ?_
        rw [← Bool.not_eq_false, ← Ledger.status_eq_none_iff, hst]
        exact fun h => by cases h
      obtain ⟨x, hx⟩ := ne_none_iff_exists'.mp hsome
      rw [hx]
      rfl
  tracked := by
    intro i hi
    have hi : (s.ledger.restore _).status i = none := hi
    rw [Ledger.status_restore, map_eq_none_iff, Ledger.status_eq_none_iff] at hi
    refine hab.tracked i ?_
    rw [Ledger.status_eq_none_iff, ← Bool.not_eq_true]
    exact fun ht => Bool.false_ne_true (hi.symm.trans (hr.tracked ht))

/-- The join of a ledger with a snapshot agrees with the join of views. -/
theorem Agrees.join (hb : before.Good) (hab : before.Agrees τ) (hr : before.Reaches P s)
    (ha : s.Agrees σ) (hdom : ∀ i, τ i = none → σ i = none) :
    { s with ledger := s.ledger.join before.ledger.snapshot }.Agrees (View.join σ τ) where
  seen := by
    intro i hi
    have hτ := hab.seen_later hb hr.table (hr.current ▸ hi)
    rw [Ledger.status_join, Ledger.status_snapshot, ← hτ, ← ha.seen i hi, View.join]
    cases hst : τ i with
    | none =>
      rw [hdom i hst]
      rfl
    | some st => cases σ i <;> rfl
  tracked := by
    intro i hi
    have hi : (s.ledger.join _).status i = none := hi
    rw [Ledger.status_join, map_eq_none_iff] at hi
    rw [View.join, ha.tracked i hi]
    rfl

end

end Store

end UnitCheck
