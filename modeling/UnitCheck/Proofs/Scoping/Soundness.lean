import UnitCheck.Proofs.Scoping.Consistency

/-!
# Sound tables

What holds of a table at any time, and what one operation makes of it.

* `Table.Sound` — the table is consistent, and what a symbol leads to exists and is seen from the
  symbol's own scope.
* `Sound.lookupFrom_sees`, `Sound.resolveFrom_sees` — a name or path stands for a symbol that is
  seen.
* `Sound.not_sees_below` — nothing inside a block is seen from the scope around it.
-/

namespace UnitCheck

open Relation List Option

namespace Table

variable {c e i id : Nat} {t' : Table} {s : Scope} {t : Table}

/-- Where a symbol belongs to and leads to. -/
structure Links (t : Table) (y : Symbol) : Prop where
  home_lt : y.scope < t.scopes.size
  members_scope : ∀ m, y.members = some m → ∃ x, t.scopes[m]? = some x ∧ x.kind = y.kind.body
  members_seen : y.kind.isContainer = true → ∀ m, y.members = some m → t.Sees y.scope m
  target_seen : ∀ a, y.aliasOf = some a → t.SeesSymbol y.scope a

theorem Links.grows (hg : t.Grows t') {y : Symbol} (h : t.Links y) : t'.Links y where
  home_lt := h.home_lt.trans_le hg.scopes_le
  members_scope m hm := by
    obtain ⟨x, hx, hk⟩ := h.members_scope m hm
    obtain ⟨x', hx', -, hk'⟩ := hg.scope hx
    exact ⟨x', hx', hk'.trans hk⟩
  members_seen hk m hm := hg.sees (h.members_seen hk m hm)
  target_seen a ha := hg.seesSymbol (h.target_seen a ha)

/-- Consistent, and every symbol leads to what exists and is seen from its own scope. -/
structure Sound (t : Table) : Prop extends Consistent t where
  links : ∀ {i : Nat} {y : Symbol}, t.symbols[i]? = some y → t.Links y

section

variable (h : t.Sound) {scope symbol : Nat} {name : String} {f : Symbol → Symbol}
include h

/-- What a table has to show next to the one it grew out of. -/
theorem Sound.grow (hg : t.Grows t') (ht : t'.Consistent)
    (hsymbols : ∀ {i : Nat} {y : Symbol}, t'.symbols[i]? = some y →
      t.symbols[i]? = some y ∨ t'.Links y) :
    t'.Sound where
  toConsistent := ht
  links hy := (hsymbols hy).elim (fun hold => (h.links hold).grows hg) id

omit h in
theorem sound_empty : Sound {} := ⟨consistent_empty, fun hy => by simp at hy⟩

/-! ## Walks up -/

/-- Growth puts nothing new around a scope. -/
theorem Sound.inside_of_grows (hg : t.Grows t') (hi : i < t.scopes.size)
    (hin : t'.Inside i e) : t.Inside i e := by
  induction hin using ReflTransGen.head_induction_on with
  | refl => exact .refl
  | head hstep _ ih =>
    have hs := Array.getElem?_eq_getElem hi
    obtain ⟨s', hs', hpar, -⟩ := hg.scope hs
    obtain ⟨s'', hs'', hp⟩ := hstep
    obtain rfl := mem_unique hs' hs''
    have hold : t.Parent _ _ := ⟨_, hs, hpar ▸ hp⟩
    exact .head hold (ih ((h.parent_lt hold).trans hi))

theorem Sound.memberOf_of_grows (hg : t.Grows t') (hi : i < t.scopes.size)
    (hm : ReflTransGen t'.MemberOf i e) : ReflTransGen t.MemberOf i e := by
  induction hm using ReflTransGen.head_induction_on with
  | refl => exact .refl
  | head hstep _ ih =>
    have hs := Array.getElem?_eq_getElem hi
    obtain ⟨s', hs', hpar, hkind⟩ := hg.scope hs
    obtain ⟨s'', hs'', hp, hk⟩ := hstep
    obtain rfl := mem_unique hs' hs''
    have hold : t.MemberOf _ _ := ⟨_, hs, hpar ▸ hp, hkind ▸ hk⟩
    exact .head hold (ih ((h.parent_lt hold.parent).trans hi))

/-- Of the old scopes, growth lets no more be seen. -/
theorem Sound.sees_of_grows (hg : t.Grows t') (hc : c < t.scopes.size)
    (hi : i < t.scopes.size) (hs : t'.Sees c i) : t.Sees c i := by
  obtain ⟨e, hce, hie⟩ := hs
  exact ⟨e, h.inside_of_grows hg hc hce, h.memberOf_of_grows hg hi hie⟩

/-- What is inside a scope that holds no members, a block or a body, is not seen from the parent. -/
theorem Sound.not_sees_below {b : Nat} (hs : t.scopes[b]? = some s)
    (hp : s.parent = some c) (hk : s.kind.holdsMembers = false) (hi : t.Inside i b) :
    ¬ t.Sees c i := by
  rintro ⟨e, hce, hie⟩
  have hcb := h.parent_lt ⟨s, hs, hp⟩
  have hec := h.inside_le hce
  rcases memberOf_or_inside hie hi with hbe | heb
  · -- the walk that leaves members only would have to leave the block
    rcases hbe.cases_head with rfl | ⟨p, ⟨s', hs', -, hk'⟩, -⟩
    · omega
    · obtain rfl := mem_unique hs hs'
      rw [hk] at hk'
      cases hk'
  · have hbe := h.inside_le heb
    omega

/-! ## Changes to one symbol or scope -/

theorem Sound.updateSymbol (hkeeps : Symbol.Keeps f)
    (hf : ∀ y, t.symbols[id]? = some y → y.Stays (f y) ∧ t.Links (f y)) :
    (t.updateSymbol id f).Sound := by
  have hg := grows_updateSymbol fun y hy => (hf y hy).1
  refine h.grow hg (h.toConsistent.updateSymbol id hkeeps) fun {i y} hy => ?_
  rw [getElem?_updateSymbol] at hy
  obtain ⟨x, hx, rfl⟩ := map_eq_some_iff.mp hy
  split
  · next hid => exact .inr ((hf x (hid ▸ hx)).2.grows hg)
  · exact .inl hx

theorem Sound.amendSymbol (id : Nat) (hf : Symbol.Amends f) :
    (t.updateSymbol id f).Sound ∧ t.Grows (t.updateSymbol id f) := by
  refine ⟨h.updateSymbol hf.keeps fun y hy => ⟨hf.stays y, ?_⟩,
    grows_updateSymbol fun y _ => hf.stays y⟩
  have hl := h.links hy
  constructor
  · rw [hf.scope_eq]
    exact hl.home_lt
  · rw [hf.members_eq, hf.kind_eq]
    exact hl.members_scope
  · rw [hf.kind_eq, hf.members_eq, hf.scope_eq]
    exact hl.members_seen
  · rw [hf.alias_eq, hf.scope_eq]
    exact hl.target_seen

theorem Sound.markUsed (id : Nat) : (t.markUsed id).Sound :=
  (h.amendSymbol id (f := fun s => { s with used := true }) (.of_same fun _ => rfl)).1

theorem Sound.updateScope {f : Scope → Scope} (hf : Scope.Keeps f) : (t.updateScope id f).Sound :=
  h.grow (grows_updateScope hf.rewrites) (h.toConsistent.updateScope id hf) .inl

/-! ## The stack of scopes -/

theorem Sound.entered (kind : ScopeKind) : (t.entered kind).Sound :=
  h.grow (t.grows_entered kind) (h.toConsistent.entered kind) .inl

theorem Sound.goto (hid : id < t.scopes.size) : { t with current := id }.Sound :=
  h.grow (t.grows_goto id) (h.toConsistent.goto hid) .inl

/-- A scope below the current one can be entered again. -/
theorem Sound.reenter_run (hp : t.Parent id t.current) :
    (reenter id).run t = (.ok (), { t with current := id }) := by
  obtain ⟨s, hs, hp⟩ := hp
  rw [reenter_eq, scope?_natCast, hs]
  dsimp only
  rw [if_pos hp, h.scope_id hs]

/-! ## Declarations -/

/-- A new symbol has no members and stands for no other one, so that it has nothing to see. -/
theorem Sound.withSymbol (hscope : scope < t.scopes.size) (hfree : t.lookupIn scope name = none)
    (kind : SymbolKind) (pos : Position) : (t.withSymbol scope name kind pos).Sound := by
  have hg := grows_withSymbol t scope name kind pos
  refine h.grow hg (h.toConsistent.withSymbol hscope hfree kind pos) fun {i y} hy => ?_
  rw [getElem?_withSymbol] at hy
  split at hy
  · obtain rfl := some.inj hy
    exact .inr ⟨hscope.trans_le hg.scopes_le, fun _ hm => (by cases hm),
      fun _ _ hm => (by cases hm),
      fun _ ha => (by cases ha)⟩
  · exact .inl hy

theorem Sound.declareIn_eq (hscope : scope < t.scopes.size)
    (name : String) (kind : SymbolKind) (pos : Position) :
    (declareIn scope name kind pos).run t =
      match t.lookupIn scope name with
      | some previous => (.error (.taken name (t.symbol previous)), t)
      | none => (.ok t.symbols.size, t.withSymbol scope name kind pos) := by
  have hs := Array.getElem?_eq_getElem hscope
  rw [Table.declareIn_eq, lookupIn_of_get? hs, scope?_natCast, hs]
  dsimp only
  cases t.scopes[scope].names.lookup name with
  | some previous => rfl
  | none => rw [h.scope_id hs]

theorem Sound.declareIn_run (hscope : scope < t.scopes.size)
    (name : String) (kind : SymbolKind) (pos : Position) :
    (∃ previous, (declareIn scope name kind pos).run t = (.error (.taken name previous), t)) ∨
      (t.withSymbol scope name kind pos).Sound ∧ (declareIn scope name kind pos).run t =
          (.ok t.symbols.size, t.withSymbol scope name kind pos) := by
  rw [h.declareIn_eq hscope]
  cases hfree : t.lookupIn scope name with
  | some previous => exact .inl ⟨_, rfl⟩
  | none => exact .inr ⟨h.withSymbol hscope hfree kind pos, rfl⟩

/-! ## Imports -/

theorem Sound.addImport (i : Import) : ((addImport i).run t).2.Sound ∧
      t.Grows ((addImport i).run t).2 :=
  have hf : Scope.Keeps fun s => { s with imports := s.imports ++ [i] } := .of_same fun _ => rfl
  ⟨h.updateScope hf, grows_updateScope hf.rewrites⟩

theorem Sound.takeImports : (takeImports.run t).2.Sound ∧ t.Grows (takeImports.run t).2 :=
  have hg := grows_of_rewrites (f := fun _ s => { s with imports := [] })
    (fun _ => ⟨fun _ => rfl, fun _ => rfl⟩) (getElem?_takeImports t) rfl
  ⟨h.grow hg h.toConsistent.takeImports .inl, hg⟩

theorem Sound.takeImports_lt : ∀ e ∈ (Table.takeImports.run t).1, e.1 < t.scopes.size := by
  intro e he
  have he' : e ∈ t.scopes.toList.flatMap fun s => s.imports.map fun i => (s.id, i) := he
  obtain ⟨s, hs, hi⟩ := mem_flatMap.mp he'
  obtain ⟨i, -, rfl⟩ := List.mem_map.mp hi
  obtain ⟨n, hn⟩ := mem_iff_getElem?.mp hs
  rw [Array.getElem?_toList] at hn
  have hlt := lt_of_get? hn
  rw [h.scope_id hn]
  exact hlt

/-! ## Names that are found -/

omit h in
theorem outward_mem {n : Nat} (h : s ∈ t.outward n c) : ∃ i : Nat, t.scopes[i]? = some s ∧
      t.Inside c i := by
  induction n generalizing c with
  | zero => cases h
  | succ n ih =>
    rw [outward, scope?_natCast] at h
    cases hs : t.scopes[c]? with
    | none =>
      rw [hs] at h
      cases h
    | some x =>
      rw [hs] at h
      rcases mem_cons.mp h with rfl | h
      · exact ⟨c, hs, .refl⟩
      · split at h
        next p hp =>
          obtain ⟨i, hi, hin⟩ := ih h
          exact ⟨i, hi, .head ⟨x, hs, hp⟩ hin⟩
        · cases h

theorem Sound.lookupFrom_sees (hok : t.lookupFrom c name = .ok id) : t.SeesSymbol c id := by
  unfold lookupFrom at hok
  dsimp only at hok
  split at hok
  next found hfound =>
    obtain rfl := Except.ok.inj hok
    obtain ⟨s, hs, hname⟩ := exists_of_findSome?_eq_some hfound
    obtain ⟨i, hi, hin⟩ := outward_mem hs
    obtain ⟨y, hy, -, rfl⟩ := h.name_symbol hi _ (mem_of_lookup_name hname)
    exact ⟨y, hy, hin.sees⟩
  · cases hok

/-- The members of a container that can be seen can be seen as well. -/
theorem Sound.member?_sees (hsees : t.SeesSymbol c symbol)
    (hk : (t.symbol symbol).kind.isContainer = true)
    (hm : t.member? (t.symbol symbol) name = some id) : t.SeesSymbol c id := by
  obtain ⟨y, hy, hc⟩ := hsees
  rw [symbol_of_get? hy] at hk hm
  unfold member? at hm
  obtain ⟨m, hmem, hl⟩ := bind_eq_some_iff.mp hm
  unfold lookupIn at hl
  split at hl
  next s hs =>
    obtain ⟨z, hz, -, hhome⟩ := h.name_symbol hs _ (mem_of_lookup_name hl)
    refine ⟨z, hz, ?_⟩
    rw [hhome]
    exact hc.trans ((h.links hy).members_seen hk m hmem)
  · cases hl

/-- What a path stands for can be seen, by induction on the path. -/
theorem Sound.resolveMembers_sees {path rest : List String} (hsees : t.SeesSymbol c symbol)
    (hok : t.resolveMembers c path symbol rest = .ok id) : t.SeesSymbol c id := by
  induction rest generalizing path symbol with
  | nil =>
    obtain rfl := Except.ok.inj hok
    exact hsees
  | cons segment rest ih =>
    rw [resolveMembers] at hok
    split at hok
    · cases hok
    next hk =>
      rw [Bool.not_eq_true, Bool.not_eq_false'] at hk
      split at hok
      · cases hok
      next m hm =>
        dsimp only at hok
        split at hok
        · exact ih (h.member?_sees hsees hk hm) hok
        · cases hok

theorem Sound.resolveFrom_sees {path : List String}
    (hok : t.resolveFrom c path = .ok id) : t.SeesSymbol c id := by
  unfold resolveFrom at hok
  split at hok
  · cases hok
  split at hok
  · cases hok
  next first hfirst => exact h.resolveMembers_sees (h.lookupFrom_sees hfirst) hok

/-- What a name stands for is seen where the name is. -/
theorem Sound.target_sees (hsees : t.SeesSymbol c id) :
    ∃ id' : Nat, t.symbols[id']? = some (t.target id) ∧ t.Sees c (t.target id).scope := by
  obtain ⟨y, hy, hc⟩ := hsees
  unfold target
  rw [symbol_of_get? hy]
  dsimp only
  split
  next a ha =>
    obtain ⟨z, hz, hseen⟩ := (h.links hy).target_seen a ha
    rw [symbol_of_get? hz]
    exact ⟨a, hz, hc.trans hseen⟩
  · exact ⟨id, hy, hc⟩

end

end Table

end UnitCheck
