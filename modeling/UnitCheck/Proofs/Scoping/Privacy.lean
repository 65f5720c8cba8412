import UnitCheck.Proofs.Scoping.Soundness

/-!
# Paths and privacy

A path goes on from what its front stands for: one more segment asks for a container, a member of
that name, and a member that is open to the scope the path is looked at from
(`resolveFrom_snoc_iff`). -/

namespace UnitCheck.Table

open List

variable {t : Table} {i j m c : Nat} {scope : Int} {ss : List Scope} {x : String}

/-- The tables that can come up: a call is made, or something is written to a symbol or a scope
other than its name and its place. -/
inductive Reachable : Table → Prop where
  | empty : Reachable {}
  | call {t : Table} (before : Reachable t) (c : Call) : Reachable (c.perform.run t).2
  | symbol {t : Table} (before : Reachable t) (id : Nat) {f : Symbol → Symbol}
    (hf : Symbol.Keeps f) :
      Reachable (t.updateSymbol id f)
  | scope {t : Table} (before : Reachable t) (id : Nat) {f : Scope → Scope} (hf : Scope.Keeps f) :
      Reachable (t.updateScope id f)

theorem Reachable.consistent (h : t.Reachable) : t.Consistent := by
  induction h with
  | empty => exact consistent_empty
  | call _ c ih => exact (ih.perform_safe c).consistent
  | symbol _ id hf ih => exact ih.updateSymbol id hf
  | scope _ id hf ih => exact ih.updateScope id hf

/-! ## Inside a scope -/

/-- A walk to the root comes by every scope around. -/
theorem Walk.mem_of_inside (hin : t.Inside i j) (hw : t.Walk i ss) :
    ∃ s ∈ ss, t.scopes[j]? = some s := by
  induction hin using Relation.ReflTransGen.head_induction_on generalizing ss with
  | refl =>
    cases hw with
    | root hs _ => exact ⟨_, mem_cons_self, hs⟩
    | up hs _ _ => exact ⟨_, mem_cons_self, hs⟩
  | head hstep _ ih =>
    obtain ⟨x, hx, hp⟩ := hstep
    cases hw with
    | root hs hroot =>
      obtain rfl := Option.mem_unique hx hs
      rw [hp] at hroot
      cases hroot
    | up hs hq hrest =>
      obtain rfl := Option.mem_unique hx hs
      obtain rfl := Option.mem_unique hp hq
      obtain ⟨s, hmem, hj⟩ := ih hrest
      exact ⟨s, mem_cons_of_mem _ hmem, hj⟩

/-- The walk from a scope outward comes to all the scopes around it. -/
theorem Consistent.within_iff (h : t.Consistent) :
    t.within scope j = true ↔ ∃ i : Nat, scope = i ∧ t.Inside i j := by
  rw [within, Bool.or_eq_true, Bool.and_eq_true, decide_eq_true_eq, beq_iff_eq, List.any_eq_true]
  constructor
  · rintro (⟨-, rfl⟩ | ⟨s, hs, hid⟩)
    · exact ⟨j, rfl, .refl⟩
    · cases scope with
      | negSucc n =>
        have hnone : t.enclosing (Int.negSucc n) = [] := by
          cases hsize : t.scopes.size <;> simp [enclosing, hsize, outward, scope?]
        rw [hnone] at hs
        cases hs
      | ofNat i =>
        obtain ⟨k, hk, hin⟩ := outward_mem hs
        rw [h.scope_id hk, beq_iff_eq] at hid
        exact ⟨i, rfl, Int.ofNat.inj hid ▸ hin⟩
  · rintro ⟨i, rfl, hin⟩
    rcases hin.cases_head with rfl | ⟨p, ⟨s, hs, -⟩, -⟩
    · exact .inl ⟨by omega, rfl⟩
    · obtain ⟨x, hx, hj⟩ := (h.walk (lt_of_get? hs)).mem_of_inside hin
      exact .inr ⟨x, hx, by rw [h.scope_id hj, beq_iff_eq]⟩

/-! ## One segment more -/

/-- A member of a container that is open to a scope. -/
def Grants (t : Table) (scope : Int) (c : Nat) (x : String) (m : Nat) : Prop :=
  (t.symbol c).kind.isContainer = true ∧ t.member? (t.symbol c) x = some m ∧
    t.reachable scope (t.symbol c) (t.symbol m) = true

theorem resolveMembers_cons_iff {path rest : List String} :
    t.resolveMembers scope path c (x :: rest) = .ok m ↔
      ∃ d, t.Grants scope c x d ∧ t.resolveMembers scope (path ++ [x]) d rest = .ok m := by
  unfold Grants
  rw [resolveMembers]
  cases hk : (t.symbol c).kind.isContainer <;> cases hx : t.member? (t.symbol c) x <;> simp
  next d =>
    cases t.reachable scope (t.symbol c) (t.symbol d) <;> simp

/-- The last step of a path goes from what the path before it stands for. -/
theorem resolveMembers_snoc_iff {path p : List String} :
    t.resolveMembers scope path c (p ++ [x]) = .ok m ↔
      ∃ d, t.resolveMembers scope path c p = .ok d ∧ t.Grants scope d x m := by
  induction p generalizing path c with
  | nil =>
    rw [nil_append, resolveMembers_cons_iff]
    simp only [resolveMembers, Except.ok.injEq, exists_eq_left', exists_eq_right]
  | cons y p ih =>
    rw [cons_append, resolveMembers_cons_iff]
    simp only [resolveMembers_cons_iff, ih]
    constructor
    · rintro ⟨e, hy, d, hd, hx⟩
      exact ⟨d, ⟨e, hy, hd⟩, hx⟩
    · rintro ⟨d, ⟨e, hy, hd⟩, hx⟩
      exact ⟨e, hy, d, hd, hx⟩

theorem resolveFrom_snoc_iff {p : List String} (hp : p ≠ []) :
    t.resolveFrom scope (p ++ [x]) = .ok m ↔
      ∃ c, t.resolveFrom scope p = .ok c ∧ t.Grants scope c x m := by
  obtain ⟨first, rest, rfl⟩ := exists_cons_of_ne_nil hp
  rw [cons_append, resolveFrom, resolveFrom]
  cases t.lookupFrom scope first with
  | error e => simp
  | ok symbol => exact resolveMembers_snoc_iff

theorem Consistent.grants_iff (h : t.Consistent) :
    t.Grants scope c x m ↔ (t.symbol c).kind.isContainer = true ∧
      ∃ home, (t.symbol c).members = some home ∧ t.lookupIn home x = some m ∧
        ((t.symbol m).isPublic = true ∨ (t.symbol m).kind = .variant ∨
          ∃ i : Nat, scope = i ∧ t.Inside i home) := by
  rw [Grants, member?, reachable]
  cases (t.symbol c).members with
  | none => simp
  | some home => simp [← h.within_iff, or_assoc]

/-- **Qualified names are compositional and respect privacy.** A path leads to `m` just in case its
front leads to a container with `m` among its members, and `m` is public, or a variant, or the path
is looked at from inside the container. So a private member that is no variant is met only from
inside. -/
theorem resolve_compositional (h : t.Reachable) (scope : Int) :
    (∀ (p : List String) (x : String) (m : Nat), p ≠ [] → (t.resolveFrom scope (p ++ [x]) = .ok m ↔
        ∃ c, t.resolveFrom scope p = .ok c ∧ (t.symbol c).kind.isContainer = true ∧
          ∃ home, (t.symbol c).members = some home ∧ t.lookupIn home x = some m ∧
            ((t.symbol m).isPublic = true ∨ (t.symbol m).kind = .variant ∨
              ∃ i : Nat, scope = i ∧ t.Inside i home))) ∧
    ∀ (path : List String) (m : Nat), 2 ≤ path.length → t.resolveFrom scope path = .ok m →
      (t.symbol m).isPublic = false → (t.symbol m).kind ≠ .variant →
      ∃ c home, t.resolveFrom scope path.dropLast = .ok c ∧ (t.symbol c).members = some home ∧
        ∃ i : Nat, scope = i ∧ t.Inside i home := by
  refine ⟨fun p x m hp => ?_, fun path m hlen hok hprivate hvariant => ?_⟩
  · simp only [resolveFrom_snoc_iff hp, h.consistent.grants_iff]
  · have hne : path ≠ [] := by
      rintro rfl
      cases hlen
    have hfront : path.dropLast ≠ [] := by
      intro hnil
      have hdrop := path.length_dropLast
      rw [hnil, List.length_nil] at hdrop
      omega
    rw [← List.dropLast_append_getLast hne, resolveFrom_snoc_iff hfront] at hok
    obtain ⟨c, hc, hgrants⟩ := hok
    obtain ⟨-, home, hhome, -, hpublic | hkind | hin⟩ := h.consistent.grants_iff.mp hgrants
    · rw [hprivate] at hpublic
      cases hpublic
    · exact absurd hkind hvariant
    · exact ⟨c, home, hc, hhome, hin⟩

/-- A module with a private function, and another name for the module. -/
def sharing : Table :=
  let calls : List Call := [.declare "m" .moduleBlock .unknown, .enter .moduleBody,
    .declare "f" .function .unknown, .exit]
  ((Call.declareAlias 0 "k" 0 .unknown).perform.run
    ((after calls).updateSymbol 0 fun y => { y with members := some 1 })).2

/-- A private member is reached from within its module and not from outside. -/
theorem resolve_compositional_sharing :
    sharing.Reachable ∧ sharing.resolveFrom 1 ["k", "f"] = .ok 1 ∧
      (sharing.resolveFrom 0 ["k", "f"]).isOk = false ∧
      ∃ c home, sharing.resolveFrom 1 ["k"] = .ok c ∧ (sharing.symbol c).members = some home ∧
        ∃ i : Nat, (1 : Int) = i ∧ sharing.Inside i home := by
  have hr : sharing.Reachable :=
    .call (.symbol (.call (.call (.call (.call .empty _) _) _) _) 0
      (f := fun y => { y with members := some 1 }) (.of_same fun _ => rfl)) _
  exact ⟨hr, rfl, rfl, (resolve_compositional hr 1).2 ["k", "f"] 1 (by decide) rfl rfl (by decide)⟩

end UnitCheck.Table
