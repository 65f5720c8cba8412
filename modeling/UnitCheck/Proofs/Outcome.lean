/-!
# Outcomes of computations that may fail

A computation with a state that may fail ends with a result or a fault, and a state in either case.
`run_bind` and `run_lift_bind` take such a computation apart, one step after the other.
-/

namespace UnitCheck

section

variable {ε σ α β γ : Type}

/-- Goes on from an outcome, unless it is a failure. -/
def andThen (o : Except ε α × σ) (f : α → σ → Except ε β × σ) : Except ε β × σ :=
  match o with
  | (.ok a, s) => f a s
  | (.error e, s) => (.error e, s)

theorem andThen_ok (a : α) (s : σ) (f : α → σ → Except ε β × σ) :
    andThen (.ok a, s) f = f a s := rfl

theorem andThen_map (f : α → β) (o : Except ε α × σ) :
    (andThen o fun a s => (.ok (f a), s)) = (o.1.map f, o.2) := by
  obtain ⟨_ | a, s⟩ := o <;> rfl

theorem andThen_assoc (o : Except ε α × σ) (f : α → σ → Except ε β × σ)
    (g : β → σ → Except ε γ × σ) :
    andThen (andThen o f) g = andThen o fun a s => andThen (f a s) g := by
  obtain ⟨_ | a, s⟩ := o <;> rfl

theorem run_bind (x : ExceptT ε (StateM σ) α) (f : α → ExceptT ε (StateM σ) β) (s : σ) :
    (x >>= f).run.run s = andThen (x.run.run s) fun a s' => (f a).run.run s' := by
  rw [ExceptT.run_bind, StateT.run_bind]
  obtain ⟨_ | a, s'⟩ := x.run.run s <;> rfl

theorem run_lift_bind (x : StateM σ α) (f : α → ExceptT ε (StateM σ) β) (s : σ) :
    ((liftM x : ExceptT ε (StateM σ) α) >>= f).run.run s = (f (x.run s).1).run.run (x.run s).2 :=
  rfl

end

end UnitCheck
