import Mathlib.Data.List.Induction
import UnitCheck.Proofs.Scoping.Consistency

/-!
# Lexical scoping

A scope is open from the call that enters it to the call that leaves it. Whatever is called, the
open scopes are those on the walk from the current scope to the root (`openScopes_eq`), so that
names are looked up in them from the inside out.

A `Block` enters a scope, declares names in the current scope only, and leaves what it has entered.
All the while the scopes around it are open below its own, and keep their names
(`Block.outer_kept`). -/

namespace UnitCheck

open List Option

namespace Table

variable {t t' : Table} {i : Nat} {ss ss' : List Scope} {calls block : List Call}

/-! ## Open scopes -/

/-- The scopes that are open after a call, the innermost first. -/
def opened (t : Table) (scopes : List Nat) : Call → List Nat
  | .enter kind => ((enter kind).run t).1 :: scopes
  | .reenter id => if ((reenter id).run t).1.isOk then id.toNat :: scopes else scopes
  | .exit => if (exit.run t).1.isOk then scopes.tail else scopes
  | _ => scopes

/-- The scopes that calls leave open, the first of them on an empty table. -/
def openScopes (calls : List Call) : List Nat :=
  (calls.foldl
    (fun (s : Table × List Nat) c => ((c.perform.run s.1).2, opened s.1 s.2 c)) ({}, [0])).2

theorem after_snoc (calls : List Call) (c : Call) :
    after (calls ++ [c]) = (c.perform.run (after calls)).2 := by
  simp [after]

theorem openScopes_snoc (calls : List Call) (c : Call) :
    openScopes (calls ++ [c]) = opened (after calls) (openScopes calls) c := by
  have hfst : ∀ (t : Table) (scopes : List Nat), (calls.foldl (fun (s : Table × List Nat) c =>
      ((c.perform.run s.1).2, opened s.1 s.2 c)) (t, scopes)).1 =
        calls.foldl (fun t c => (c.perform.run t).2) t := by
    induction calls with
    | nil => exact fun _ _ => rfl
    | cons c rest ih => exact fun t scopes => ih _ _
  rw [openScopes, foldl_append, foldl_cons, hfst]
  rfl

/-- What a name stands for in scopes, of which the first one that has it counts. -/
def lookupAmong (scopes : List Scope) (name : String) : Except LookupFault Nat :=
  match scopes.findSome? (·.names.lookup name) with
  | some id => .ok id
  | none => .error (.notFound name (Text.nearest? (scopes.flatMap (·.sortedNames)) name))

/-- Only the names of the scopes matter for a lookup. -/
theorem lookupAmong_congr (h : ss'.map Scope.names = ss.map Scope.names) (name : String) :
    lookupAmong ss' name = lookupAmong ss name := by
  have hfind : ∀ ss : List Scope, ss.findSome? (·.names.lookup name) =
      (ss.map Scope.names).findSome? (·.lookup name) := by
    intro ss
    rw [findSome?_map]
    rfl
  have hsorted : ∀ ss : List Scope, ss.flatMap (·.sortedNames) =
      (ss.map Scope.names).flatMap fun names => (names.map (·.1)).mergeSort fun a b =>
        decide (a ≤ b) := by
    intro ss
    rw [flatMap_map]
    rfl
  unfold lookupAmong
  rw [hfind, hfind, hsorted, hsorted, h]

/-! ## The walk from the current scope -/

/-- The ids of the scopes around the current one. -/
def around (t : Table) : List Nat := (t.enclosing t.current).map Scope.id

theorem Walk.unique (h : t.Walk i ss) (h' : t.Walk i ss') : ss = ss' := by
  induction h generalizing ss' with
  | root hs hp =>
    cases h' with
    | root hs' _ => rw [mem_unique hs hs']
    | up hs' hp' _ =>
      obtain rfl := mem_unique hs hs'
      rw [hp] at hp'
      cases hp'
  | up hs hp _ ih =>
    cases h' with
    | root hs' hp' =>
      obtain rfl := mem_unique hs hs'
      rw [hp] at hp'
      cases hp'
    | up hs' hp' hrest =>
      obtain rfl := mem_unique hs hs'
      obtain rfl := mem_unique hp hp'
      rw [ih hrest]

section

variable (h : t.Consistent)
include h

theorem Consistent.around_eq (hw : t.Walk t.current ss) : t.around = ss.map Scope.id := by
  rw [around, (h.walk h.current_lt).unique hw]

/-- Scopes on a walk are where their ids say, and come before the one that the walk starts from. -/
theorem Walk.mem (hw : t.Walk i ss) {s : Scope} (hs : s ∈ ss) :
    t.scopes[s.id]? = some s ∧ s.id ≤ i := by
  induction hw with
  | root hi _ =>
    obtain rfl := mem_singleton.mp hs
    rw [h.scope_id hi]
    exact ⟨hi, le_rfl⟩
  | up hi hp _ ih =>
    rcases mem_cons.mp hs with rfl | hs
    · rw [h.scope_id hi]
      exact ⟨hi, le_rfl⟩
    · exact ⟨(ih hs).1, (ih hs).2.trans (h.parent_below hi hp).1.le⟩

theorem Consistent.map_scope_around : t.around.map t.scope = t.enclosing t.current := by
  rw [around, List.map_map]
  refine (map_congr_left fun s hs => ?_).trans (List.map_id _)
  exact scope_of_get? ((h.walk h.current_lt).mem h hs).1

theorem Consistent.get?_of_mem_around (hi : i ∈ t.around) : t.scopes[i]? = some (t.scope i) := by
  obtain ⟨s, hs, rfl⟩ := List.mem_map.mp hi
  have hget := ((h.walk h.current_lt).mem h hs).1
  rw [hget, scope_of_get? hget]

/-- The current scope comes first, and is none of those around it. -/
theorem Consistent.around_cons : ∃ outer, t.around = t.current :: outer ∧ ∀ j ∈ outer,
      j < t.current := by
  have hw := h.walk h.current_lt
  rw [around]
  generalize t.enclosing t.current = ss at hw
  cases hw with
  | root hs _ => exact ⟨[], by rw [← h.scope_id hs]; rfl, by simp⟩
  | @up _ p s rest hs hp hrest =>
    refine ⟨rest.map Scope.id, by rw [← h.scope_id hs]; rfl, fun j hj => ?_⟩
    obtain ⟨s', hs', rfl⟩ := List.mem_map.mp hj
    exact (hrest.mem h hs').2.trans_lt (h.parent_below hs hp).1

omit h in
/-- Scopes that keep their parents are on the same walks. -/
theorem Walk.kept {α : Type} {g : Scope → α}
    (hkept : ∀ {i : Nat} {s : Scope}, t.scopes[i]? = some s →
    ∃ s', t'.scopes[i]? = some s' ∧ s'.parent = s.parent ∧ g s' = g s) (hw : t.Walk i ss) :
    ∃ ss', t'.Walk i ss' ∧ ss'.map g = ss.map g := by
  induction hw with
  | root hs hp =>
    obtain ⟨s', hs', hpar, hg⟩ := hkept hs
    exact ⟨[s'], .root hs' (hpar.trans hp), by simp [hg]⟩
  | up hs hp _ ih =>
    obtain ⟨s', hs', hpar, hg⟩ := hkept hs
    obtain ⟨rest', hrest', hmap⟩ := ih
    exact ⟨s' :: rest', .up hs' (hpar.trans hp) hrest', by simp [hg, hmap]⟩

theorem Consistent.around_goto (hi : i < t.scopes.size) (hw : t.Walk i ss) :
    { t with current := i }.around = ss.map Scope.id := by
  obtain ⟨ss', hw', hids⟩ : ∃ ss', { t with current := i }.Walk i ss' ∧
    ss'.map Scope.id = ss.map Scope.id :=
    hw.kept fun {_ s} hs => by exact ⟨s, hs, rfl, rfl⟩
  rw [(h.goto hi).around_eq hw', hids]

theorem Consistent.around_reenter (id : Int) : ((reenter id).run t).2.around =
      if ((reenter id).run t).1.isOk then id.toNat :: t.around else t.around := by
  rw [reenter_eq]
  split
  · rfl
  next s hs =>
    split
    next hp =>
      obtain ⟨rfl, hget⟩ := h.scope?_eq hs
      have hwalk : t.Walk s.id (s :: t.enclosing t.current) := .up hget hp (h.walk h.current_lt)
      refine (h.around_goto (lt_of_get? hget) hwalk).trans ?_
      rfl
    · rfl

theorem Consistent.around_exit :
    (exit.run t).2.around = if (exit.run t).1.isOk then t.around.tail else t.around := by
  have hw := h.walk h.current_lt
  rw [exit_eq]
  generalize hss : t.enclosing t.current = ss at hw
  cases hw with
  | root hs hp =>
    rw [scope_of_get? hs, hp]
    rfl
  | up hs hp hrest =>
    rw [scope_of_get? hs, hp]
    refine (h.around_goto ((h.parent_below hs hp).1.trans h.current_lt) hrest).trans ?_
    rw [around, hss]
    rfl

/-- One call changes the scopes around the current one as it opens or closes a scope. -/
theorem Consistent.around_perform (c : Call) :
    (c.perform.run t).2.around = opened t t.around c := by
  have hsafe := h.perform_safe c
  have h' := hsafe.consistent
  obtain ⟨ss, hw, hids⟩ := (h.walk h.current_lt).kept (g := Scope.id) fun hs => by
    obtain ⟨s', hs', hp, -⟩ := hsafe.kept _ _ hs
    exact ⟨s', hs', hp, by rw [h.scope_id hs, h'.scope_id hs']⟩
  have hstay : (c.perform.run t).2.current = t.current → (c.perform.run t).2.around = t.around := by
    intro hcurrent
    rw [← hcurrent] at hw
    rw [h'.around_eq hw, hids]
    rfl
  cases c with
  | enter kind =>
    have hwalk : (t.entered kind).Walk t.scopes.size (t.newScope kind :: ss) :=
      .up (entered_scope t kind) rfl hw
    refine (h'.around_eq hwalk).trans ?_
    rw [map_cons, hids]
    rfl
  | reenter id => exact h.around_reenter id
  | exit => exact h.around_exit
  | addImport i => exact hstay rfl
  | takeImports => exact hstay rfl
  | _ => exact hstay (hsafe.current (by simp [Call.target]))

omit h in
/-- **The open scopes** are those around the current one. -/
theorem openScopes_eq (calls : List Call) : openScopes calls = (after calls).around := by
  induction calls using reverseRecOn with
  | nil => rfl
  | append_singleton calls c ih =>
    rw [openScopes_snoc, after_snoc, (consistent_after calls).around_perform, ih]

omit h in
theorem lookup_after (calls : List Call) (name : String) :
    (after calls).lookup name = lookupAmong ((openScopes calls).map (after calls).scope) name := by
  rw [openScopes_eq, (consistent_after calls).map_scope_around]
  rfl

/-! ## Blocks -/

/-- Whether a call declares names in no scope but the current one. -/
def Call.isLocal : Call → Bool
  | declareIn .. | declareAlias .. => false
  | _ => true

/-- A block opens a scope, which is the last one that it closes: until then the scopes that were
open before are open below others. -/
structure Block (calls block : List Call) : Prop where
  opens : 1 < block.length
  isLocal : ∀ c ∈ block, c.isLocal = true
  inside : ∀ p q, block = p ++ q → p ≠ [] → q ≠ [] →
    (openScopes calls).length < (openScopes (calls ++ p)).length
  closed : (openScopes (calls ++ block)).length = (openScopes calls).length

omit h in
theorem opened_cases (t : Table) (scopes : List Nat) (c : Call) :
    (∃ i, opened t scopes c = i :: scopes ∧ c.target t = none) ∨ opened t scopes c = scopes.tail ∨
      opened t scopes c = scopes := by
  cases c with
  | enter kind => exact .inl ⟨_, rfl, rfl⟩
  | reenter id =>
    rw [opened]
    split
    · exact .inl ⟨_, rfl, rfl⟩
    · exact .inr (.inr rfl)
  | exit =>
    rw [opened]
    split
    · exact .inr (.inl rfl)
    · exact .inr (.inr rfl)
  | _ => exact .inr (.inr rfl)

/-- A call keeps the names of the open scopes that it does not declare names in. -/
theorem Consistent.names_perform (c : Call) (hi : i ∈ t.around)
    (hne : c.target t ≠ some (i : Int)) :
    ((c.perform.run t).2.scope i).names = (t.scope i).names := by
  obtain ⟨s', hs', -, hnames⟩ := (h.perform_safe c).kept i _ (h.get?_of_mem_around hi)
  rw [scope_of_get? hs', hnames hne]

/-- **One call of a block.** It leaves the outer scopes open, and does not touch their names. -/
theorem Consistent.perform_inside {c : Call} (hlocal : c.isLocal = true)
    {own outer : List Nat} (hown : t.around = own ++ outer)
    (hle : outer.length ≤ (opened t t.around c).length)
    (hlt : own = [] → outer.length < (opened t t.around c).length) :
    (∃ own', opened t t.around c = own' ++ outer) ∧
      ∀ j ∈ outer, ((c.perform.run t).2.scope j).names = (t.scope j).names := by
  have hnames : (∀ j ∈ outer, c.target t ≠ some (j : Int)) →
      ∀ j ∈ outer, ((c.perform.run t).2.scope j).names = (t.scope j).names :=
    fun hne j hj => h.names_perform c (hown ▸ mem_append_right own hj) (hne j hj)
  -- the call opens a scope, or it closes or keeps the innermost one
  rcases opened_cases t t.around c with ⟨i, heq, htarget⟩ | heq
  · refine ⟨⟨i :: own, by rw [heq, hown]; rfl⟩, hnames fun j _ => ?_⟩
    rw [htarget]
    simp
  · obtain ⟨i, own, rfl⟩ : ∃ i own', own = i :: own' := by
      refine exists_cons_of_ne_nil fun hnil => ?_
      have hlen := hlt hnil
      subst hnil
      rcases heq with heq | heq <;> rw [heq, hown] at hlen <;> simp at hlen
      omega
    refine ⟨?_, hnames fun j hj => ?_⟩
    · rw [hown] at heq
      rcases heq with heq | heq
      · exact ⟨own, hown ▸ heq⟩
      · exact ⟨i :: own, hown ▸ heq⟩
    · -- the innermost scope is the current one, and it is none of the outer ones
      obtain ⟨below, hcons, hbelow⟩ := h.around_cons
      rw [hown] at hcons
      obtain ⟨-, rfl⟩ := List.cons.inj hcons
      have hj' := hbelow j (mem_append_right own hj)
      cases c <;> simp [Call.target, Call.isLocal] at hlocal ⊢ <;> omega

end

/-- **A block, up to some point.** -/
theorem Block.outer_kept (h : Block calls block) {p : List Call} (hp : p <+: block) :
    (∃ own, openScopes (calls ++ p) = own ++ openScopes calls) ∧
      ∀ i ∈ openScopes calls, ((after (calls ++ p)).scope i).names =
        ((after calls).scope i).names := by
  induction p using reverseRecOn with
  | nil =>
    rw [append_nil]
    exact ⟨⟨[], rfl⟩, fun _ _ => rfl⟩
  | append_singleton p c ih =>
    obtain ⟨q, rfl⟩ := hp
    obtain ⟨⟨own, hown⟩, hnames⟩ := ih ⟨c :: q, by simp⟩
    have hc := consistent_after (calls ++ p)
    have hnext : openScopes (calls ++ (p ++ [c])) =
        opened (after (calls ++ p)) (after (calls ++ p)).around c := by
      rw [← append_assoc, openScopes_snoc, openScopes_eq (calls ++ p)]
    -- before its end a block has a scope of its own open
    have hinside : q ≠ [] → (openScopes calls).length < (openScopes (calls ++ (p ++ [c]))).length :=
      h.inside _ q rfl (by simp)
    have haround : (after (calls ++ p)).around = own ++ openScopes calls := by
      rw [← openScopes_eq, hown]
    -- the next call happens inside of the block; that it does is left for the two goals behind
    have hstep := hc.perform_inside (h.isLocal c (by simp)) haround ?_ ?_
    · rw [hnext, ← append_assoc, after_snoc]
      exact ⟨hstep.1, fun i hi => (hstep.2 i hi).trans (hnames i hi)⟩
    · rw [← hnext]
      by_cases hq : q = []
      · have hclosed := h.closed
        rw [hq, append_nil] at hclosed
        exact hclosed.ge
      · exact (hinside hq).le
    · rintro rfl
      rw [← hnext]
      refine hinside fun hq => ?_
      subst hq
      have hne : p ≠ [] := by
        rintro rfl
        exact absurd h.opens (by simp)
      have hlen := h.inside p [c] (by simp) hne (by simp)
      rw [hown] at hlen
      exact absurd hlen (by simp)

/-- **Scoping is lexical.** A block leaves no trace: names stand for what they stood for before it,
or are not found, with the same suggestion. At every point of it a name stands for its declaration
in the innermost open scope that has one. -/
theorem lookup_lexical (h : Block calls block) (name : String) :
    (after (calls ++ block)).lookup name = (after calls).lookup name ∧
      ∀ p, p <+: block → (after (calls ++ p)).lookup name =
        lookupAmong ((openScopes (calls ++ p)).map (after (calls ++ p)).scope) name := by
  refine ⟨?_, fun p _ => lookup_after (calls ++ p) name⟩
  obtain ⟨⟨own, hown⟩, hnames⟩ := h.outer_kept (List.prefix_refl block)
  have hclosed := h.closed
  rw [hown, List.length_append] at hclosed
  obtain rfl : own = [] := List.eq_nil_of_length_eq_zero (by omega)
  rw [lookup_after, lookup_after, hown]
  refine lookupAmong_congr ?_ name
  rw [List.nil_append, List.map_map, List.map_map]
  exact List.map_congr_left hnames

/-- A global variable `x`, and a block that was left. -/
def declaredX : List Call := [.declare "x" .letVar .unknown, .enter .block, .exit]

/-- The block is entered again: it gets an `x` of its own, and a block with a `y`. -/
def hidingX : List Call :=
  [.reenter 1, .declare "x" .letVar .unknown, .enter .block,
    .declareTyped "y" .letVar .unknown none false, .exit, .exit]

/-- A block that hides `x`: within it the name stands for another symbol, and after it for the same
as before. -/
theorem lookup_lexical_hidden :
    Block declaredX hidingX ∧ (after (declaredX ++ hidingX)).lookup "x" =
      (after declaredX).lookup "x" ∧
      (after (declaredX ++ hidingX)).lookup "y" = (after declaredX).lookup "y" ∧
      ((after (declaredX ++ hidingX.take 3)).lookup "x").toOption = some 1 := by
  have hblock : Block declaredX hidingX := by
    refine ⟨by decide, by decide, fun p q heq hp hq => ?_, by decide +kernel⟩
    -- there are few calls, so the open scopes are counted after each of them
    have hlengths : ∀ n < hidingX.length, 0 < n →
        (openScopes declaredX).length < (openScopes (declaredX ++ hidingX.take n)).length := by
      decide +kernel
    have htake : hidingX.take p.length = p := by rw [heq, List.take_left]
    rw [← htake]
    refine hlengths p.length ?_ (List.length_pos_of_ne_nil hp)
    rw [heq, List.length_append]
    exact Nat.lt_add_of_pos_right (List.length_pos_of_ne_nil hq)
  exact ⟨hblock, (lookup_lexical hblock "x").1, (lookup_lexical hblock "y").1, by decide +kernel⟩

end Table

end UnitCheck
