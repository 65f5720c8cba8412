import UnitCheck.Proofs.Typing.Reachability

/-!
# The walks without a bound

The walks of the library count their steps. Here are the same walks as plain recursions, with no
bound at all: `none` stands for a recursion that does not end, as happens when a variable is bound
to itself (`plainHead_of_self_bound`).

On the types of a registry in use every one of them ends, with what the bounded walk gives
(`bindings_acyclic_walks_end`). For each there is a lemma that needs a consistent registry only.
-/

namespace UnitCheck

open Ty Relation List

variable {a b t : Ty} {r r' r₁ : Registry} {as bs : List Ty} {out : Except UnifyFault (List Ty)}
  {leaf : TypeVar → Ty}
  {e : UnifyFault}

namespace Registry

/-! ## Heads -/

/-- Follows a variable as long as it is bound. -/
def plainHead (r : Registry) (t : Ty) : Option Ty :=
  match t with
  | .var v =>
    match r.binding? v with
    | some b => r |>.plainHead b
    | none => some t
  | t => some t
partial_fixpoint

theorem Consistent.plainHead_eq (h : r.Consistent) (ht : r.Holds t) :
    r.plainHead t = some (r.head t) := by
  induction t, ht using h.walk_induction with
  | free v _ hb =>
    rw [plainHead.eq_def, head_free hb]
    simp only [hb]
  | bound v b _ hb ih =>
    rw [plainHead.eq_def, h.head_bound hb]
    simp only [hb]
    exact ih
  | node t _ hnv _ =>
    rw [plainHead.eq_def, head_of_not_var r hnv]
    cases t with
    | var v => exact absurd rfl (hnv v)
    | _ => rfl

/-! ## Searching for a variable -/

/-- Whether some unbound variable that a type leads to satisfies `p`. The search stops at the first
one. -/
def plainAny (r : Registry) (p : TypeVar → Bool) (t : Ty) : Option Bool := do
  match ← r.plainHead t with
  | .var v => return p v
  | t => t.parts.anyM fun u => r |>.plainAny p u
partial_fixpoint

def plainHasFree (r : Registry) (t : Ty) : Option Bool := r.plainAny (!·.rigid) t

def plainOccurs (r : Registry) (v : TypeVar) (t : Ty) : Option Bool := r.plainAny (· == v) t

theorem anyM_eq_some {α : Type} {f : α → Option Bool} {g : α → Bool} {xs : List α}
    (h : ∀ x ∈ xs, f x = some (g x)) : xs.anyM f = some (xs.any g) := by
  induction xs with
  | nil => rfl
  | cons x xs ih =>
    rw [forall_mem_cons] at h
    rw [List.anyM, any_cons, h.1, ih h.2]
    cases hx : g x <;> rfl

/-- The search without a bound on its steps ends, and finds what the bounded one does. -/
theorem Consistent.plainAny_eq (h : r.Consistent) (p : TypeVar → Bool) (ht : r.Holds t) :
    r.plainAny p t = some (r.anyUnbound p r.reach t) := by
  induction t, ht using h.walk_induction with
  | free v hv hb =>
    rw [plainAny.eq_def, h.plainHead_eq hv, head_free hb, anyUnbound_free hb]
    rfl
  | bound v b hv hb ih =>
    rw [plainAny.eq_def, h.plainHead_eq (h.holds_bound hb)] at ih
    rw [plainAny.eq_def, h.plainHead_eq hv, h.head_bound hb, h.anyUnbound_bound hv hb]
    exact ih
  | node t ht hnv ih =>
    rw [plainAny.eq_def, h.plainHead_eq ht, head_of_not_var r hnv, anyUnbound_of_not_var r p hnv,
      ← anyM_eq_some ih]
    cases t with
    | var v => exact absurd rfl (hnv v)
    | _ => rfl

/-! ## Copies -/

/-- Computations on a registry that may not end. -/
abbrev UnboundedM := StateT Registry Option

/-- A computation that ends. -/
def ending {α : Type} (x : RegistryM α) : UnboundedM α := fun r => some (x.run r)

end Registry

namespace Ty

/-- Copies what a type leads to, with the types of `leaf` in place of unbound variables, and
registers every type on the way. -/
def plainCopy (leaf : TypeVar → Ty) (t : Ty) : Registry.UnboundedM Ty := do
  match ← liftM ((← get).plainHead t) with
  | .var v => return leaf v
  | t =>
    let us ← t.parts.mapM fun u => u |>.plainCopy leaf
    Registry.ending (Registry.register (t.rebuild t.lifetime us))
partial_fixpoint

def plainResolve (t : Ty) : Registry.UnboundedM Ty := t.plainCopy .var

def plainSubstitute (subst : List (TypeVar × Ty)) (t : Ty) : Registry.UnboundedM Ty :=
  t.plainCopy (Registry.replacement subst)

end Ty

namespace Registry

/-- A copy of a type that is not a variable is made of copies of its parts. -/
theorem copied_of_not_var (r : Registry) (leaf : TypeVar → Ty) (h : ∀ v, t ≠ .var v) :
    (r.applied t).mapVars leaf =
      t.rebuild t.lifetime (t.parts.map fun u => (r.applied u).mapVars leaf) := by
  rw [mapVars_eq_rebuild leaf (r.applied_ne_var h), parts_applied r h, applied_of_not_var r h,
    lifetime_rebuild_self, List.map_map]
  exact rebuild_congr (label_rebuild (length_map _)) (by simp [parts_rebuild])

/-- One step of the copy without a bound. -/
theorem Consistent.plainCopy_run_eq (h : r.Consistent) (leaf : TypeVar → Ty) (ht : r.Holds t) :
    (t.plainCopy leaf).run r =
      match r.head t with
      | .var v => some (leaf v, r)
      | u => ((u.parts.mapM (plainCopy leaf) : UnboundedM (List Ty)).run r).bind fun o =>
        some ((register (u.rebuild u.lifetime o.1)).run o.2) := by
  have hstep : (t.plainCopy leaf).run r = (r.plainHead t).bind fun u =>
      (match u with
        | .var v => return leaf v
        | u => do
          let us ← u.parts.mapM (plainCopy leaf)
          ending (register (u.rebuild u.lifetime us)) : UnboundedM Ty).run r := by
    rw [plainCopy.eq_def]
    show Option.bind (Option.bind (r.plainHead t) _) _ = _
    cases r.plainHead t <;> rfl
  rw [hstep, h.plainHead_eq ht]
  show (match r.head t with
    | .var v => return leaf v
    | u => _ : UnboundedM Ty).run r = _
  cases r.head t <;> rfl

/-- The copies of a list of types, if each of them ends. -/
theorem mapM_plainCopy_run {ts : List Ty}
    (hts : ∀ t ∈ ts, r.Spans ((r.applied t).mapVars leaf) ∧ ∀ {r' : Registry}, r.Settled r' →
      (t.plainCopy leaf).run r' = some ((register ((r.applied t).mapVars leaf)).run r'))
        (hr : r.Settled r') :
    (ts.mapM (plainCopy leaf) : UnboundedM (List Ty)).run r' =
      some ((registerAll (ts.map fun t => (r.applied t).mapVars leaf)).run r') := by
  induction ts generalizing r' with
  | nil =>
    rw [map_nil, registerAll_nil_run]
    rfl
  | cons t ts ih =>
    rw [forall_mem_cons] at hts
    obtain ⟨⟨hspans, hrun⟩, hrest⟩ := hts
    have hreg := register_run hr.consistent.toInterned (hr.grows.spans hspans)
    have hnext := ih hrest (hr.trans (hreg.settled hr.consistent))
    rw [mapM_cons, map_cons, registerAll_cons_run]
    simp only [StateT.run_bind, hrun hr]
    show Option.bind ((ts.mapM (plainCopy leaf) : UnboundedM (List Ty)).run _) _ = _
    rw [hnext]
    rfl

/-- The copy without a bound ends, with the type that the bounded one registers. -/
theorem Consistent.plainCopy_run (h : r.Consistent)
    (hl : ∀ v, r.Holds (.var v) → r.Holds (leaf v)) (ht : r.Holds t) (hr : r.Settled r') :
    (t.plainCopy leaf).run r' = some ((register ((r.applied t).mapVars leaf)).run r') := by
  induction t, ht using h.walk_induction generalizing r' with
  | free v hv hb =>
    rw [hr.consistent.plainCopy_run_eq leaf (hr.grows.holds hv), hr.grows.head, head_free hb,
      applied_free hb, mapVars_var,
      register_run_of_holds hr.consistent.toInterned (hr.grows.holds (hl v hv))]
  | bound v b hv hb ih =>
    have hsame : ((var v).plainCopy leaf).run r' = (b.plainCopy leaf).run r' := by
      rw [hr.consistent.plainCopy_run_eq leaf (hr.grows.holds hv),
        hr.consistent.plainCopy_run_eq leaf (hr.grows.holds (h.holds_bound hb)), hr.grows.head,
        hr.grows.head, h.head_bound hb]
    rw [hsame, h.applied_bound hb, ih hr]
  | node t ht hnv ih =>
    have hall := mapM_plainCopy_run (fun u hu =>
      ⟨h.spans_copy hl (h.holds_part ht hu), fun hr' => ih u hu hr'⟩) hr
    have hnode : (t.plainCopy leaf).run r' =
        ((t.parts.mapM (plainCopy leaf) : UnboundedM (List Ty)).run r').bind fun o =>
          some ((register (t.rebuild t.lifetime o.1)).run o.2) := by
      rw [hr.consistent.plainCopy_run_eq leaf (hr.grows.holds ht), hr.grows.head,
        head_of_not_var r hnv]
      cases t with
      | var v => exact absurd rfl (hnv v)
      | _ => rfl
    rw [hnode, hall]
    show some _ = some _
    rcases h.compound_of_holds ht hnv with ⟨b, rfl⟩ | hc
    · rw [show (basic b).parts.map _ = [] from rfl, registerAll_nil_run]
      rfl
    · -- To register the copy at once registers its parts first, as the walk does.
      have hlen : (t.parts.map fun u => (r.applied u).mapVars leaf).length = t.parts.length :=
        length_map _
      have hspans := hr.grows.spans (h.spans_copy hl ht)
      rw [copied_of_not_var r leaf hnv] at hspans ⊢
      rw [register_run_eq_parts hr.consistent.toInterned (hc.rebuild hlen) hspans,
        parts_rebuild hlen, lifetime_rebuild_self,
        rebuild_congr (label_rebuild hlen) (by rw [length_registerAll, parts_rebuild hlen])]

theorem Consistent.plainResolve_run (h : r.Consistent) (ht : r.Holds t) :
    t.plainResolve.run r = some ((resolve t).run r) := by
  have hself : (r.applied t).mapVars .var = r.applied t := mapVars_eq_self fun _ _ => rfl
  rw [plainResolve, h.plainCopy_run (fun _ hv => hv) ht (Settled.refl h), hself,
    resolve_run_eq h ht]

theorem Consistent.plainSubstitute_run (h : r.Consistent) {subst : List (TypeVar × Ty)}
    (hs : ∀ p ∈ subst, r.Holds p.2) (ht : r.Holds t) :
    (t.plainSubstitute subst).run r = some ((substitute subst t).run r) := by
  rw [plainSubstitute, h.plainCopy_run (fun _ => holds_replacement hs) ht (Settled.refl h),
    h.substitute_run_eq hs ht]

/-! ## Identity -/

def plainIdentical (r : Registry) (a b : Ty) : Option Bool := do
  let a ← r.plainHead a
  let b ← r.plainHead b
  if a = b ∨ a = .invalid ∨ b = .invalid then return true
  if a.label = b.label then (a.parts.zip b.parts).allM fun p => r |>.plainIdentical p.1 p.2
  else return false
partial_fixpoint

/-- A comparison of lists ends if those of their members do. -/
theorem allM_zip_eq_some {f : Ty → Ty → Option Bool} {g : Ty → Ty → Bool}
    (hlen : as.length = bs.length) (h : ∀ a ∈ as, ∀ b ∈ bs, f a b = some (g a b)) :
    ((as.zip bs).allM fun p => f p.1 p.2) = some (identicalAll g as bs) := by
  induction as generalizing bs with
  | nil =>
    obtain rfl := length_eq_zero_iff.mp hlen.symm
    rfl
  | cons a as ih =>
    cases bs with
    | nil => cases hlen
    | cons b bs =>
      have hrest := ih (Nat.succ.inj hlen) fun x hx y hy => h x (mem_cons_of_mem a hx) y
        (mem_cons_of_mem b hy)
      rw [zip_cons_cons, List.allM, hrest, h a mem_cons_self b mem_cons_self, identicalAll]
      cases g a b <;> rfl

/-- A comparison without a bound ends if those of the parts do. -/
theorem Consistent.plainIdentical_of_parts (h : r.Consistent) (ha : r.Holds a) (hb : r.Holds b)
    (hp : ∀ x ∈ (r.head a).parts, ∀ y ∈ (r.head b).parts,
      r.plainIdentical x y = some (r.identical x y)) :
    r.plainIdentical a b = some (r.identical a b) := by
  rw [plainIdentical.eq_def, h.plainHead_eq ha, h.plainHead_eq hb, h.identical_eq ha hb,
    identicalHeads]
  show (if _ ∨ _ ∨ _ then some true else if _ then _ else some false) = _
  split
  · next htriv => rcases htriv with heq | heq | heq <;> simp [heq, isInvalid]
  next htriv =>
    rw [not_or, not_or] at htriv
    obtain ⟨hne, hna, hnb⟩ := htriv
    split
    next hlab =>
      rw [allM_zip_eq_some (length_parts_of_label hlab) hp]
      simp [isInvalid, hne, hna, hnb, hlab]
    · next hlab => simp [isInvalid, hne, hna, hnb, hlab]

/-- The comparison without a bound ends, and says what the bounded one says. -/
theorem Consistent.plainIdentical_eq (h : r.Consistent) (ha : r.Holds a) (hb : r.Holds b) :
    r.plainIdentical a b = some (r.identical a b) := by
  refine h.plainIdentical_of_parts ha hb ?_
  induction a, ha using h.walk_induction generalizing b with
  | free v _ hbv =>
    rw [head_free hbv]
    intro x hx
    simp [parts] at hx
  | bound v c _ hbv ih =>
    rw [h.head_bound hbv]
    exact ih hb
  | node a ha hnv ih =>
    rw [head_of_not_var r hnv]
    intro x hx y hy
    have hHy := h.holds_part (h.holds_head hb) hy
    exact h.plainIdentical_of_parts (h.holds_part ha hx) hHy (ih x hx hHy)

/-! ## Unification -/

/-- Computations that may fail, and may not end. -/
abbrev UnboundedUnifyM := ExceptT UnifyFault UnboundedM

/-- Reads something that may not end off the registry. -/
def reading {α : Type} (f : Registry → Option α) : UnboundedUnifyM α := ExceptT.lift fun r =>
  (f r).map (·, r)

def plainMismatch (a b : Ty) : UnboundedUnifyM Ty := do
  let a ← ExceptT.lift a.plainResolve
  let b ← ExceptT.lift b.plainResolve
  throw (.mismatch a b)

def plainBind (v : TypeVar) (t : Ty) : UnboundedUnifyM Ty := do
  if ← reading (·.plainOccurs v t) then
    throw (.recursive v (← ExceptT.lift t.plainResolve))
  else
    modifyThe Registry (·.assign v t)
    return t

end Registry

def Ty.plainUnify (a b : Ty) : Registry.UnboundedUnifyM Ty := do
  let a ← Registry.reading (·.plainHead a)
  let b ← Registry.reading (·.plainHead b)
  if a = b then return a
  if a = .invalid ∨ b = .invalid then return .invalid
  match Registry.target? a b with
  | some (v, t) => Registry.plainBind v t
  | none =>
    if a.label = b.label then
      let us ← (a.parts.zip b.parts).mapM fun p => p.1 |>.plainUnify p.2
      ExceptT.lift (Registry.ending (Registry.register (Registry.joined a b us)))
    else Registry.plainMismatch a b
partial_fixpoint

namespace Registry

/-- Unifies two lists of types, pair by pair. -/
def plainUnifyAll (as bs : List Ty) : UnboundedUnifyM (List Ty) :=
  (as.zip bs).mapM fun p => p.1.plainUnify p.2

section

variable {α β : Type} {x : UnboundedUnifyM α} {f : α → UnboundedUnifyM β}

theorem run_bind_ok {a : α} (h : x.run.run r = some (.ok a, r')) :
    (x >>= f).run.run r = (f a).run.run r' := by
  rw [ExceptT.run_bind, StateT.run_bind]
  rw [h]
  rfl

theorem run_bind_none (h : x.run.run r = none) : (x >>= f).run.run r = none := by
  rw [ExceptT.run_bind, StateT.run_bind]
  rw [h]
  rfl

theorem run_bind_error (h : x.run.run r = some (.error e, r')) :
    (x >>= f).run.run r = some (.error e, r') := by
  rw [ExceptT.run_bind, StateT.run_bind]
  rw [h]
  rfl

end

theorem reading_run {α : Type} {f : Registry → Option α} {a : α} (h : f r = some a) :
    (reading f).run.run r = some (.ok a, r) := by
  show Option.bind ((f r).map (·, r)) _ = _
  rw [h]
  rfl

theorem lift_run {α : Type} {x : UnboundedM α} {o : α × Registry} (h : x.run r = some o) :
    (ExceptT.lift x : UnboundedUnifyM α).run.run r = some (.ok o.1, o.2) := by
  show Option.bind (x.run r) _ = _
  rw [h]
  rfl

theorem Consistent.plainMismatch_run (h : r.Consistent) (ha : r.Holds a) (hb : r.Holds b) :
    (plainMismatch a b).run.run r = some ((failMismatch a b : UnifyM Ty).run.run r) := by
  have hra := h.resolve_run ha
  rw [plainMismatch, run_bind_ok (lift_run (h.plainResolve_run ha)),
    run_bind_ok (lift_run (hra.consistent.plainResolve_run (hra.grows.holds hb)))]
  rfl

theorem Consistent.plainBind_run (h : r.Consistent) (v : TypeVar) (ht : r.Holds t) :
    (plainBind v t).run.run r = some ((bind v t).run.run r) := by
  have hocc : r.plainOccurs v t = some (r.occurs v t) := h.plainAny_eq _ ht
  rw [plainBind, run_bind_ok (reading_run hocc), bind_run]
  split
  · rw [run_bind_ok (lift_run (h.plainResolve_run ht))]
    rfl
  · rfl

/-- At two heads that settle, unification is over. -/
theorem plainUnify_run_settled {out : Except UnifyFault Ty} (h : r.Consistent) (ha : r.Holds a)
    (hb : r.Holds b) (hs : Settles r (r.head a) (r.head b) out r') :
    (a.plainUnify b).run.run r = some (out, r') := by
  have hHa := h.holds_head ha
  have hHb := h.holds_head hb
  rw [plainUnify.eq_def, run_bind_ok (reading_run (h.plainHead_eq ha)),
    run_bind_ok (reading_run (h.plainHead_eq hb))]
  generalize r.head a = a, r.head b = b at *
  cases hs with
  | same => rw [if_pos rfl]; rfl
  | broken hne hbad => rw [if_neg hne, if_pos hbad]; rfl
  | bound v t hne hna hnb ht hocc =>
    rw [if_neg hne, if_neg (not_or.mpr ⟨hna, hnb⟩)]
    simp only [ht]
    rw [h.plainBind_run v (of_target? ht hHa hHb), bind_run, hocc]
    rfl
  | recursive v t hne hna hnb ht hocc hrun =>
    rw [if_neg hne, if_neg (not_or.mpr ⟨hna, hnb⟩)]
    simp only [ht]
    rw [h.plainBind_run v (of_target? ht hHa hHb), bind_run, hocc, hrun]
    rfl
  | clash hne hna hnb ht hlab hrun =>
    rw [if_neg hne, if_neg (not_or.mpr ⟨hna, hnb⟩)]
    simp only [ht, hlab, if_false]
    rw [h.plainMismatch_run hHa hHb, hrun]

theorem plainUnify_run_parts (h : r.Consistent) (ha : r.Holds a) (hb : r.Holds b)
    (hd : Decomposes (r.head a) (r.head b)) : (a.plainUnify b).run.run r =
      (plainUnifyAll (r.head a).parts (r.head b).parts >>= fun us =>
        ExceptT.lift (ending (register (joined (r.head a) (r.head b) us)))).run.run r := by
  rw [plainUnify.eq_def, run_bind_ok (reading_run (h.plainHead_eq ha)),
    run_bind_ok (reading_run (h.plainHead_eq hb)), if_neg hd.ne,
    if_neg (not_or.mpr ⟨hd.left_ne, hd.right_ne⟩)]
  simp only [hd.target, hd.label, if_true]
  rfl

theorem plainUnifyAll_nil_run (r : Registry) :
    (plainUnifyAll [] []).run.run r = some (.ok [], r) := by
  rfl

theorem plainUnifyAll_cons (a b : Ty) (as bs : List Ty) :
    plainUnifyAll (a :: as) (b :: bs) = do
      let u ← a.plainUnify b
      let us ← plainUnifyAll as bs
      return u :: us := by
  rw [plainUnifyAll, zip_cons_cons, mapM_cons]
  rfl

theorem plainUnifyAll_cons_run {r₂ : Registry} {u : Ty}
    (hfirst : (a.plainUnify b).run.run r = some (.ok u, r₁))
    (hrest : (plainUnifyAll as bs).run.run r₁ = some (out, r₂)) :
    (plainUnifyAll (a :: as) (b :: bs)).run.run r = some (out.map (u :: ·), r₂) := by
  rw [plainUnifyAll_cons, run_bind_ok hfirst]
  cases out with
  | error e => exact run_bind_error hrest
  | ok us => exact run_bind_ok hrest

theorem plainUnifyAll_cons_error (hfirst : (a.plainUnify b).run.run r = some (.error e, r₁)) :
    (plainUnifyAll (a :: as) (b :: bs)).run.run r = some (.error e, r₁) := by
  rw [plainUnifyAll_cons, run_bind_error hfirst]

/-- Unification without a bound ends as every run of the unifier does. -/
theorem plainUnifyAll_run (run : UnifyRun r as bs out r') (h : Ready r as bs) :
    (plainUnifyAll as bs).run.run r = some (out, r') := by
  refine UnifyRun.induction_on (P := fun r as bs out r' =>
    (plainUnifyAll as bs).run.run r = some (out, r'))
    ?nil ?settled ?failed ?parts ?partsFailed run h
  case nil => exact fun r _ => plainUnifyAll_nil_run r
  case settled =>
    intro _ _ _ _ _ _ _ _ _ h hs _ _ ih
    have hfirst := plainUnify_run_settled h.consistent h.holds_left h.holds_right hs
    exact plainUnifyAll_cons_run hfirst ih
  case failed =>
    intro _ _ _ _ _ _ _ h hs
    have hfirst := plainUnify_run_settled h.consistent h.holds_left h.holds_right hs
    exact plainUnifyAll_cons_error hfirst
  case parts =>
    intro r r₁ _ a b _ _ us _ h hd inner ihInner _ _ _ ihRest
    have hin := inner.preserves h.parts
    have hlen := hin.length us rfl
    -- the parts are registered, so the joined type is added over them
    have hreg := register_run_of_parts hin.consistent.toInterned
      (hd.joined_compound h.consistent.toInterned h.holds_head_left hlen)
      (fun u hu => hin.holds us rfl u (by rwa [joined, parts_rebuild hlen] at hu))
    refine plainUnifyAll_cons_run ?_ ihRest
    rw [plainUnify_run_parts h.consistent h.holds_left h.holds_right hd, run_bind_ok ihInner]
    exact lift_run (show (ending (register _)).run r₁ = _ from congrArg some hreg)
  case partsFailed =>
    intro _ _ _ _ _ _ _ h hd _ ihInner
    refine plainUnifyAll_cons_error ?_
    rw [plainUnify_run_parts h.consistent h.holds_left h.holds_right hd, run_bind_error ihInner]

theorem plainUnify_run_of_all {o : Except UnifyFault Ty × Registry}
    (h : (plainUnifyAll [a] [b]).run.run r = some (o.1.map ([·]), o.2)) :
    (a.plainUnify b).run.run r = some o := by
  obtain ⟨out, r'⟩ := o
  cases hu : (a.plainUnify b).run.run r with
  | none =>
    rw [plainUnifyAll_cons, run_bind_none hu] at h
    cases h
  | some p =>
    obtain ⟨e | u, r₁⟩ := p
    · rw [plainUnifyAll_cons_error hu] at h
      cases out <;> simp_all [Except.map]
    · rw [plainUnifyAll_cons_run hu (plainUnifyAll_nil_run r₁)] at h
      cases out <;> simp_all [Except.map]

theorem Consistent.plainUnify_run (h : r.Consistent) (ha : r.Holds a) (hb : r.Holds b) :
    (a.plainUnify b).run.run r = some ((unify a b).run.run r) :=
  plainUnify_run_of_all (plainUnifyAll_run (unify_runs h ha hb) (.pair h ha hb))

/-- **Bindings make no cycle, so every walk ends.** In every registry that calls can lead to, failed
calls among them: no walk through parts and bindings comes back to where it began; no rigid variable
is bound; a binding stays as it is in all that follows; and on registered types the recursions that
follow, resolve, search, copy, compare and unify types end without any bound on their depth, with
the results of the bounded ones. -/
theorem bindings_acyclic_walks_end {r : Registry} (h : r.Reachable) : r.Acyclic ∧
    (∀ v, r.Holds (.var v) → v.rigid = true → r.binding? v = none) ∧
    (∀ r', r.Later r' → ∀ v t, r.binding? v = some t → r'.binding? v = some t) ∧
    ∀ t, r.Holds t → r.plainHead t = some (r.head t) ∧
      t.plainResolve.run r = some ((resolve t).run r) ∧
      r.plainHasFree t = some (r.hasFree t) ∧
      (∀ v, r.plainOccurs v t = some (r.occurs v t)) ∧
      (∀ subst : List (TypeVar × Ty), (∀ p ∈ subst, r.Holds p.2) →
        (t.plainSubstitute subst).run r = some ((substitute subst t).run r)) ∧
      ∀ u, r.Holds u → r.plainIdentical t u = some (r.identical t u) ∧
        (t.plainUnify u).run.run r = some ((unify t u).run.run r) := by
  have hc := h.consistent
  refine ⟨hc.acyclic, fun v hv => hc.binding?_of_rigid hv, ?_, ?_⟩
  · intro r' hl v t hb
    exact (hl.evolves hc).extends_.binding hb
  · intro t ht
    refine ⟨hc.plainHead_eq ht, hc.plainResolve_run ht, hc.plainAny_eq _ ht,
      fun v => hc.plainAny_eq _ ht, fun _ hs => hc.plainSubstitute_run hs ht, ?_⟩
    intro u hu
    exact ⟨hc.plainIdentical_eq ht hu, hc.plainUnify_run ht hu⟩

/-- After the tuples were unified, which binds both variables, a unification that fails leaves the
bindings and binds nothing to the type parameter. -/
theorem bindings_acyclic_walks_end_sample :
    let r := performAll
      [.unify Sample.left Sample.right, .unify (.var Sample.a) .int] Sample.registry
    r.binding? Sample.a = some (.ref (.var Sample.param) false (some "l")) ∧ r.Acyclic ∧
      r.binding? Sample.param = none ∧
      r.plainIdentical Sample.left Sample.right = some true := by
  intro r
  have hreach : r.Reachable := Sample.reachable.later (later_performAll (by decide +kernel))
  obtain ⟨hacyclic, hrigid, _, hwalks⟩ := bindings_acyclic_walks_end hreach
  refine ⟨by decide +kernel, hacyclic, hrigid Sample.param (by decide +kernel) rfl, ?_⟩
  rw [((hwalks Sample.left (by decide +kernel)).2.2.2.2.2 Sample.right (by decide +kernel)).1]
  decide +kernel

end Registry

end UnitCheck
