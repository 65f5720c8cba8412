import UnitCheck.Checking.Literals
import UnitCheck.Proofs.Checking.Operations

/-!
# Calls, members, indices and literals

The checks that put together any number of operands, and those that look into the type of one.
-/

namespace UnitCheck.Checking

open List

section

variable {ρ : Rights} {s : Store} {pos : Position} {args : List Operand} {t : Ty}
  {target subscript : Operand}
  {elems : List Operand} {inits : List (Label × Operand)} {types : List (String × Ty)}
    {name : String}

/-! ## Calls -/

/-- Arguments are taken from left to right and compared with their parameters. -/
theorem checkArgs_ends (h : s.Good) (name : String) (number : Nat) {params : List Ty}
    (hparams : ∀ t ∈ params, s.Holds t) (hargs : ∀ o ∈ args, o.Proper ρ) :
    Ends ρ s (checkArgs name number params args) fun _ ds => AllClean ρ.sites ds := by
  induction args generalizing s number params with
  | nil => exact .pure h allClean_nil
  | cons a rest ih =>
    rw [forall_mem_cons] at hargs
    rw [checkArgs]
    refine (hargs.1.take h).bind fun t s' h' he ht => ?_
    have hafter : ∀ {s'' : Store} {faults : List Diagnostic}, s''.Good → s'.Evaluates ρ s'' →
        AllClean ρ.sites faults → Ends ρ s'' (do
          let others ← checkArgs name (number + 1) params.tail rest
          return faults ++ others) fun _ ds => AllClean ρ.sites ds := by
      intro s'' faults h'' he' hfaults
      have htail : ∀ t ∈ params.tail, s''.Holds t := fun t ht =>
        he'.holds (he.holds (hparams t (mem_of_mem_tail ht)))
      refine (ih h'' (number + 1) htail hargs.2).bind fun others s₃ h₃ _ hothers => ?_
      exact .pure h₃ (hfaults.append hothers)
    split
    next param _ _ =>
      have hparam := he.holds (hparams param mem_cons_self)
      refine (expect_ends h' hparam ht.holds hargs.1.pos _).bind
        fun faults s'' h'' he' hfaults => ?_
      exact hafter h'' he' hfaults
    · exact hafter h' (.refl ρ s') ht.clean

/-- A callee of an open type is made a function of the arguments that it gets. -/
theorem callOpen_ends (h : s.Good) {callee : Ty} (hc : s.Holds callee)
    (hargs : ∀ o ∈ args, o.Proper ρ) (hpos : ρ.sites.covers pos) :
    Ends ρ s (callOpen callee args pos) (Store.Types ρ.sites) := by
  unfold callOpen
  refine (takeAll_ends h hargs).bind fun out s' h' he hout => ?_
  obtain ⟨params, faults⟩ := out
  refine (fresh_ends h').bind fun result s'' h'' he' hresult => ?_
  have hparts : ∀ u ∈ (Ty.func params result).parts, s''.Holds u := by
    intro u hu
    rcases mem_append.mp hu with hu | hu
    · exact he'.holds (hout.1 u hu)
    · exact mem_singleton.mp hu ▸ hresult
  refine (register_ends h'' (by simp) hparts).bind fun wanted s₃ h₃ he₃ hwanted => ?_
  have hc := he₃.holds (he'.holds (he.holds hc))
  refine (unify_ends h₃ hc hwanted).bind fun found s₄ h₄ he₄ _ => ?_
  have hresult := he₄.holds (he₃.holds hresult)
  cases found with
  | ok _ => exact .pure h₄ ⟨hresult, hout.2⟩
  | error fault => exact .pure h₄ ⟨hresult, hout.2.append (allClean_one (fault.clean hpos))⟩

/-- The report on a wrong number of arguments. -/
theorem allClean_count {p : Prop} [Decidable p] (hpos : ρ.sites.covers pos) (message : String) :
    AllClean ρ.sites (if p then [] else [.mk' .typeMismatch pos message]) := by
  split
  · exact allClean_nil
  · exact allClean_mk' hpos _ rfl

/-- Calls, whatever the callee turns out to be. -/
theorem call_proper {callee : Operand} (hc : callee.Proper ρ) (name : String)
    (hargs : ∀ o ∈ args, o.Proper ρ) (hpos : ρ.sites.covers pos) :
    Proper ρ (call callee name args pos) := by
  intro s h
  unfold call
  refine (hc.read h).bind fun c s' h' _ hc => ?_
  split
  · refine (takeAll_ends h' hargs).bind fun out s'' h'' _ hout => ?_
    exact .pure h'' (.broken h'' (hc.clean.append hout.2))
  refine (resolve_ends h' hc.holds).bind fun type s'' h'' _ htype => ?_
  split
  next params result =>
    have hparams : ∀ t ∈ params, s''.Holds t := fun t ht =>
      h''.registry.holds_part htype (by simp [Ty.parts, ht])
    refine (checkArgs_ends h'' name 1 hparams hargs).bind fun faults s₃ h₃ he₃ hfaults => ?_
    refine noFaults_ends h₃ ((allClean_count hpos _).append hfaults) ?_
    have hresult := h''.registry.holds_part htype (u := result) (by simp [Ty.parts])
    exact (resolve_ends h₃ (he₃.holds hresult)).bind fun t s₄ h₄ _ ht => .pure h₄ (.ok ht)
  · split
    · exact .pure h'' (.failed h'' hpos _ rfl)
    · exact callOpen_ends h'' htype hargs hpos
  · exact .pure h'' (.ok (h''.registry.basic .invalid))
  · exact .pure h'' (.failed h'' hpos _ rfl)

/-! ## Members -/

theorem hasMembers_ends (h : s.Good) (ht : s.Holds t) :
    Ends ρ s (hasMembers t) fun _ _ => True := by
  unfold hasMembers
  refine (behindRefs_ends h ht).bind fun u s' h' _ _ => ?_
  split <;> exact .pure h' trivial

/-- A method call reads its receiver and takes its arguments. Its own type is left open. -/
theorem methodCall_proper {receiver : Operand} (hr : receiver.Proper ρ) (name : String)
    (hargs : ∀ o ∈ args, o.Proper ρ) (hpos : ρ.sites.covers pos) :
    Proper ρ (methodCall receiver name args pos) := by
  intro s h
  unfold methodCall
  refine (hr.read h).bind fun r s' h' _ hr => ?_
  refine (takeAll_ends h' hargs).bind fun out s'' h'' he hout => ?_
  refine noFaults_ends h'' (hr.clean.append hout.2) ?_
  have hr := he.holds hr.holds
  refine (hasMembers_ends h'' hr).bind fun ok s₃ h₃ he₃ _ => ?_
  split
  · exact (fresh_ends h₃).bind fun t s₄ h₄ _ ht => .pure h₄ (.ok ht)
  · refine (resolve_ends h₃ (he₃.holds hr)).bind fun t s₄ h₄ _ _ => ?_
    exact .pure h₄ (.failed h₄ hpos _ rfl)

theorem tupleElem?_mem {elems : List Ty} (h : tupleElem? elems name = some t) : t ∈ elems := by
  obtain ⟨i, _, h⟩ := Option.bind_eq_some_iff.mp h
  split at h
  · cases h
  · exact mem_of_getElem? h

/-- The elements of a tuple are known by number; the members of other types are left open. -/
theorem memberOf_ends (h : s.Good) (ht : s.Holds t) (name : String)
    (hpos : ρ.sites.covers pos) : Ends ρ s (memberOf t name pos) (Store.Types ρ.sites) := by
  unfold memberOf
  refine (behindRefs_ends h ht).bind fun u s' h' _ hu => ?_
  split
  next elems =>
    split
    next elem helem =>
      have hmem : elem ∈ elems := tupleElem?_mem helem
      exact .pure h' (.ok (h'.registry.holds_part hu (by simpa [Ty.parts] using hmem)))
    · exact .pure h' (.failed h' hpos _ rfl)
  · exact (fresh_ends h').bind fun t s'' h'' _ ht => .pure h'' (.ok ht)
  · split
    · exact .pure h' (.failed h' hpos _ rfl)
    · exact (fresh_ends h').bind fun t s'' h'' _ ht => .pure h'' (.ok ht)
  · exact .pure h' (.ok (h'.registry.basic .invalid))
  · exact .pure h' (.failed h' hpos _ rfl)

/-- A member of something that is a value, not a path. -/
theorem valueMember_ends (h : s.Good) (ht : target.Proper ρ) (name : String)
    (hpos : ρ.sites.covers pos) :
    Ends ρ s (do
      let t ← target.read
      match t.faults with
      | [] => memberOf t.type name pos
      | faults => return .broken faults) (Store.Types ρ.sites) := by
  refine (ht.read h).bind fun t s' h' _ ht => ?_
  exact noFaults_ends h' ht.clean (memberOf_ends h' ht.holds name hpos)

theorem member_proper {here : Int} (hmakes : ρ.makes here) (path : Option (List String))
    (ht : target.Proper ρ) (name : String) (hpos : ρ.sites.covers pos) :
    Proper ρ (member here path target name pos) := by
  intro s h
  unfold member
  split
  next first rest =>
    refine .get ?_
    split
    next id _ =>
      refine .get ?_
      split
      · refine (markUsed_ends h id).bind fun _ s' h' _ _ => ?_
        exact pathValue_proper hmakes _ hpos h'
      · exact valueMember_ends h ht name hpos
    · exact valueMember_ends h ht name hpos
  · exact valueMember_ends h ht name hpos

/-! ## Indices -/

/-- Arrays are indexed by an integer, behind any references; an open type is made an array. -/
theorem indexed_ends (h : s.Good) (ht : s.Holds t) (hsub : subscript.Proper ρ)
    (hpos : ρ.sites.covers pos) :
    Ends ρ s (indexed t subscript pos) (Store.Types ρ.sites) := by
  unfold indexed
  refine (hsub.read h).bind fun i s' h' he hi => ?_
  split
  · exact .pure h' (.broken h' hi.clean)
  refine (expect_ends h' (h'.registry.basic .int) hi.holds hsub.pos _).bind
    fun faults s'' h'' he' hfaults => ?_
  refine noFaults_ends h'' hfaults ?_
  have ht := he'.holds (he.holds ht)
  refine (behindRefs_ends h'' ht).bind fun u s₃ h₃ he₃ hu => ?_
  have hnot : Ends ρ s₃ (do
      let t ← resolve t
      return .failed .typeMismatch pos s!"cannot index into a value of type {t.text}")
      (Store.Types ρ.sites) :=
    (resolve_ends h₃ (he₃.holds ht)).bind fun _ s₄ h₄ _ _ => .pure h₄ (.failed h₄ hpos _ rfl)
  split
  · exact .pure h₃ (.ok (h₃.registry.holds_part hu (by simp [Ty.parts])))
  · split
    · exact hnot
    · exact shapeOf_ends h₃ hu (by simp) (by simp [Ty.parts]) hpos
  · exact .pure h₃ (.ok (h₃.registry.basic .invalid))
  · exact hnot

theorem index_proper (ht : target.Proper ρ) (hi : subscript.Proper ρ) (hpos : ρ.sites.covers pos) :
    Proper ρ (index target subscript pos) := by
  intro s h
  unfold index
  refine (ht.read h).bind fun t s' h' _ ht => ?_
  split
  · exact indexed_ends h' ht.holds hi hpos
  · refine (hi.read h').bind fun i s'' h'' _ hi => ?_
    exact .pure h'' (.broken h'' (ht.clean.append hi.clean))

/-! ## Tuples and arrays -/

theorem literal_proper (v : Literal) : Proper ρ (return { type := literal v }) := by
  intro s h
  refine .pure h (.ok ?_)
  cases v <;> exact h.registry.basic _

theorem tupleLiteral_proper (he : ∀ o ∈ elems, o.Proper ρ) : Proper ρ (tupleLiteral elems) := by
  intro s h
  unfold tupleLiteral
  refine (takeAll_ends h he).bind fun out s' h' _ hout => ?_
  refine noFaults_ends h' hout.2 ?_
  refine (register_ends h' (by simp) (by simpa [Ty.parts] using hout.1)).bind
    fun t s'' h'' _ ht => .pure h'' (.ok ht)

/-- The elements behind the first are compared with its type. -/
theorem checkElems_ends (h : s.Good) {first : Ty} (hfirst : s.Holds first) (number : Nat)
    (hes : ∀ o ∈ elems, o.Proper ρ) :
    Ends ρ s (checkElems first number elems) fun _ ds => AllClean ρ.sites ds := by
  induction elems generalizing s number with
  | nil => exact .pure h allClean_nil
  | cons e rest ih =>
    rw [forall_mem_cons] at hes
    rw [checkElems]
    refine (hes.1.take h).bind fun t s' h' he ht => ?_
    have hafter : ∀ {s'' : Store} {faults : List Diagnostic}, s''.Good → s'.Evaluates ρ s'' →
        AllClean ρ.sites faults → Ends ρ s'' (do
          let others ← checkElems first (number + 1) rest
          return faults ++ others) fun _ ds => AllClean ρ.sites ds := by
      intro s'' faults h'' he' hfaults
      refine (ih h'' (he'.holds (he.holds hfirst)) (number + 1) hes.2).bind
        fun others s₃ h₃ _ hothers => ?_
      exact .pure h₃ (hfaults.append hothers)
    split
    · have hfirst := he.holds hfirst
      refine (expectAt_ends h' hfirst ht.holds _ _).bind fun faults s'' h'' he' _ => ?_
      split
      · exact hafter h'' he' allClean_nil
      · refine (resolve_ends h'' (he'.holds hfirst)).bind fun _ s₃ h₃ he₃ _ => ?_
        have he₃ := he'.trans he₃
        refine (resolve_ends h₃ (he₃.holds ht.holds)).bind fun _ s₄ h₄ he₄ _ => ?_
        exact hafter h₄ (he₃.trans he₄) (allClean_mk' hes.1.pos _ rfl)
    · exact hafter h' (.refl ρ s') ht.clean

/-- An array has the type of its first element; an empty one leaves it open. -/
theorem arrayLiteral_proper (hes : ∀ o ∈ elems, o.Proper ρ) : Proper ρ (arrayLiteral elems) := by
  intro s h
  have harray : ∀ {s' : Store} {elem : Ty} (size : Option Int), s'.Good → s'.Holds elem →
      Ends ρ s' (do return { type := ← register (.array elem size) }) (Store.Types ρ.sites) := by
    intro s' elem size h' helem
    refine (register_ends h' (by simp) (by simpa [Ty.parts] using helem)).bind
      fun t s'' h'' _ ht => .pure h'' (.ok ht)
  unfold arrayLiteral
  split
  · exact (fresh_ends h).bind fun elem s' h' _ helem => harray _ h' helem
  · rw [forall_mem_cons] at hes
    refine (hes.1.take h).bind fun t s' h' _ ht => ?_
    have hfirst : s'.Holds (if t.faults.isEmpty then t.type else .invalid) := by
      split
      · exact ht.holds
      · exact h'.registry.basic .invalid
    refine (checkElems_ends h' hfirst 1 hes.2).bind fun others s'' h'' he hothers => ?_
    refine noFaults_ends h'' (ht.clean.append hothers) ?_
    exact (resolve_ends h'' (he.holds hfirst)).bind fun elem s₃ h₃ _ helem => harray _ h₃ helem

/-! ## Structures -/

/-- The types of fields are of the registry. -/
theorem holds_fieldsOf (h : s.Good) (y : Symbol) :
    ∀ f ∈ fieldsOf s.table y, s.Holds (f.type.getD .invalid) := by
  intro f hf
  obtain ⟨name, _, hf⟩ := mem_filterMap.mp hf
  split at hf
  next id _ =>
    split at hf
    next hkind =>
      obtain rfl := Option.some.inj hf
      cases htype : (s.table.symbol id).type with
      | none => exact h.registry.basic .invalid
      | some t =>
        rcases hget : s.table.symbols[id]? with _ | y
        · simp [Table.symbol, Array.getD_eq_getD_getElem?, hget] at htype
          cases htype
        · rw [Table.symbol_of_get? hget] at htype
          exact (h.typed hget).holds t htype
    · cases hf
  · cases hf

/-- The types that fields are looked up in are registered. -/
theorem holds_lookup {r : Registry} (h : ∀ p ∈ types, r.Holds p.2)
    (hl : types.lookup name = some t) : r.Holds t := by
  obtain ⟨_, _, rfl, _⟩ := lookup_eq_some_iff.mp hl
  exact h (name, t) (by simp)

/-- Each value of a literal is taken and compared with the type of its field. -/
theorem checkInits_ends (h : s.Good) (y : Symbol) (htypes : ∀ p ∈ types, s.Holds p.2)
    (done : List String) (hi : ∀ p ∈ inits, ρ.sites.covers p.1.pos ∧ p.2.Proper ρ) :
    Ends ρ s (checkInits y types done inits) fun _ out => AllClean ρ.sites out.2 := by
  induction inits generalizing s done with
  | nil => exact .pure h allClean_nil
  | cons p rest ih =>
    obtain ⟨label, value⟩ := p
    rw [forall_mem_cons] at hi
    rw [checkInits]
    refine (hi.1.2.take h).bind fun t s' h' he ht => ?_
    -- the values behind this one, whatever was wrong with it
    have hafter : ∀ {s'' : Store} {done : List String} {faults : List Diagnostic}, s''.Good →
        s'.Evaluates ρ s'' → AllClean ρ.sites faults → Ends ρ s'' (do
          let out ← checkInits y types done rest
          return (out.1, faults ++ out.2)) fun _ out => AllClean ρ.sites out.2 := by
      intro s'' done faults h'' he' hfaults
      have htypes : ∀ p ∈ types, s''.Holds p.2 := fun p hp =>
        he'.holds (he.holds (htypes p hp))
      refine (ih h'' htypes done hi.2).bind fun out s₃ h₃ _ hout => ?_
      exact .pure h₃ (hfaults.append hout)
    split
    · exact hafter h' (.refl ρ s') (allClean_mk' hi.1.1 _ rfl)
    next type hlook =>
      split
      · exact hafter h' (.refl ρ s') (allClean_mk' hi.1.1 _ rfl)
      · have hwanted := he.holds (holds_lookup htypes hlook)
        refine (expect_ends h' hwanted ht.holds hi.1.2.pos _).bind
          fun faults s'' h'' he' hfaults => ?_
        exact hafter h'' he' hfaults
    · exact hafter h' (.refl ρ s') ht.clean

/-- The types of a literal are a copy for this literal, made before its values are looked at. -/
theorem structFields_ends (h : s.Good) (y : Symbol) {type : Ty} (ht : s.Holds type)
    (hi : ∀ p ∈ inits, ρ.sites.covers p.1.pos ∧ p.2.Proper ρ) (hpos : ρ.sites.covers pos) :
    Ends ρ s (structFields y type inits pos) (Store.Types ρ.sites) := by
  unfold structFields
  refine .get ?_
  have hshape : ∀ t ∈ type :: (fieldsOf s.table y).map (fun f => f.type.getD .invalid),
      s.Holds t := by
    rw [forall_mem_cons]
    refine ⟨ht, fun t ht => ?_⟩
    obtain ⟨f, hf, rfl⟩ := List.mem_map.mp ht
    exact holds_fieldsOf h y f hf
  refine (instantiateAll_ends h hshape y.generics).bind fun shape s' h' _ hshape => ?_
  have htypes : ∀ p ∈ ((fieldsOf s.table y).map (·.name)).zip shape.tail, s'.Holds p.2 :=
    fun p hp => hshape _ (mem_of_mem_tail (of_mem_zip hp).2)
  refine (checkInits_ends h' y htypes [] hi).bind fun out s'' h'' he hout => ?_
  obtain ⟨done, faults⟩ := out
  dsimp only
  split
  · have hhead : s'.Holds (shape.headD .invalid) := by
      cases shape with
      | nil => exact h'.registry.basic .invalid
      | cons t _ => exact hshape t mem_cons_self
    exact (resolve_ends h'' (he.holds hhead)).bind fun t s₃ h₃ _ ht => .pure h₃ (.ok ht)
  · refine .pure h'' (.broken h'' fun d hd => ?_)
    obtain ⟨f, _, rfl⟩ := List.mem_map.mp hd
    exact Diagnostic.clean_mk' hpos _ rfl
  · exact .pure h'' (.broken h'' hout)

/-- Literals of structures, also of such as are not known. -/
theorem structLiteral_proper (name : String)
    (hi : ∀ p ∈ inits, ρ.sites.covers p.1.pos ∧ p.2.Proper ρ) (hpos : ρ.sites.covers pos) :
    Proper ρ (structLiteral name inits pos) := by
  intro s h
  unfold structLiteral
  refine (lookup_ends h name hpos).bind fun found s' h' _ hfound => ?_
  cases found with
  | error d =>
    have hvalues : ∀ o ∈ inits.map (·.2), o.Proper ρ := by
      intro o ho
      obtain ⟨p, hp, rfl⟩ := List.mem_map.mp ho
      exact (hi p hp).2
    refine (takeAll_ends h' hvalues).bind fun out s'' h'' _ hout => ?_
    have hd : Diagnostic.Clean ρ.sites { d with code := .typeNotFound } :=
      Diagnostic.clean_of_code rfl hfound.covered
    exact .pure h'' (.broken h'' ((allClean_one hd).append hout.2))
  | ok id =>
    refine (useSymbol_ends h' hfound).bind fun y s'' h'' _ hy => ?_
    split
    · exact .pure h'' (.failed h'' hpos _ rfl)
    split
    · exact .pure h'' (.failed h'' hpos _ rfl)
    · next type htype => exact structFields_ends h'' y (hy.admits.holds type htype) hi hpos

/-! ## Casts -/

theorem cast_proper {operand : Operand} (ho : operand.Proper ρ) {type : TypeExpr}
    (hat : type.Placed ρ.sites) (hpos : ρ.sites.covers pos) : Proper ρ (cast operand type pos) := by
  intro s h
  unfold cast
  refine (ho.read h).bind fun x s' h' _ hx => ?_
  refine (convertTyped_ends h' hat).bind fun dst s'' h'' he hdst => ?_
  refine noFaults_ends h'' (hx.clean.append hdst.clean) ?_
  refine (resolve_ends h'' (he.holds hx.holds)).bind fun src s₃ h₃ he₃ _ => ?_
  refine .get ?_
  split
  · exact .pure h₃ (.ok (he₃.holds hdst.holds))
  · exact .pure h₃ (.failed h₃ hpos _ rfl)

end

end UnitCheck.Checking
