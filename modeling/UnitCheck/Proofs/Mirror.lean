import UnitCheck.Analysis.Plan

/-!
# Runs side by side

`Mirrors I R m m'` — two computations, run on states that are related by `I`, end in states that are
related by `I`, with results that are related by `R`. `Analysis.Mirrors` is the same for
computations that log diagnostics, whatever the logs. Faults are compared by `Matches`: both runs
fail, or none. -/

namespace UnitCheck

/-- Outcomes that both fail, or both succeed with related values. -/
inductive Matches {ε ε' α β : Type} (R : α → β → Prop) : Except ε α → Except ε' β → Prop where
  | ok {a : α} {b : β} (h : R a b) : Matches R (.ok a) (.ok b)
  | error {e : ε} {e' : ε'} : Matches R (.error e) (.error e')

theorem Matches.mapError {ε ε' δ δ' α β : Type} {R : α → β → Prop} {x : Except ε α}
    {y : Except ε' β}
    (h : Matches R x y) (f : ε → δ) (g : ε' → δ') : Matches R (x.mapError f) (y.mapError g) := by
  cases h with
  | ok h => exact .ok h
  | error => exact .error

theorem Matches.imp {ε ε' α β : Type} {R R' : α → β → Prop} {x : Except ε α} {y : Except ε' β}
    (h : Matches R x y) (hr : ∀ a b, R a b → R' a b) : Matches R' x y := by
  cases h with
  | ok h => exact .ok (hr _ _ h)
  | error => exact .error

/-- Options that are both missing, or both there with related values. -/
inductive Paired {α β : Type} (R : α → β → Prop) : Option α → Option β → Prop where
  | some {a : α} {b : β} (h : R a b) : Paired R (some a) (some b)
  | none : Paired R none none

section

variable {S α β γ δ : Type} {I : S → S → Prop} {R : α → β → Prop} {R' : γ → δ → Prop}

def Mirrors (I : S → S → Prop) (R : α → β → Prop) (m : StateM S α) (m' : StateM S β) : Prop :=
  ∀ ⦃s s' : S⦄, I s s' → R (m.run s).1 (m'.run s').1 ∧ I (m.run s).2 (m'.run s').2

theorem Mirrors.bind {m : StateM S α} {m' : StateM S β} {f : α → StateM S γ} {f' : β → StateM S δ}
    (hm : Mirrors I R m m') (hf : ∀ a b, R a b → Mirrors I R' (f a) (f' b)) :
    Mirrors I R' (m >>= f) (m' >>= f') := by
  intro s s' h
  obtain ⟨hr, h₁⟩ := hm h
  exact hf _ _ hr h₁

theorem Mirrors.pure {a : α} {b : β} (h : R a b) :
    Mirrors I R (pure a : StateM S α) (pure b : StateM S β) :=
  fun _ _ hi => ⟨h, hi⟩

end

namespace Analysis

variable {α β γ δ : Type} {I : Store → Store → Prop} {R : α → β → Prop} {R' : γ → δ → Prop}
  {m' : AnalysisM β}
  {m : AnalysisM α}

def Mirrors (I : Store → Store → Prop) (R : α → β → Prop) (m : AnalysisM α) (m' : AnalysisM β) :
    Prop :=
  ∀ log log', UnitCheck.Mirrors I (fun a b => R a.1 b.1) (m.run log) (m'.run log')

theorem Mirrors.bind {f : α → AnalysisM γ} {f' : β → AnalysisM δ} (hm : Mirrors I R m m')
    (hf : ∀ a b, R a b → Mirrors I R' (f a) (f' b)) : Mirrors I R' (m >>= f) (m' >>= f') := by
  intro log log' s s' h
  obtain ⟨hr, h₁⟩ := hm log log' h
  exact hf _ _ hr _ _ h₁

theorem Mirrors.pure {a : α} {b : β} (h : R a b) :
    Mirrors I R (pure a : AnalysisM α) (pure b : AnalysisM β) :=
  fun _ _ _ _ hi => ⟨h, hi⟩

theorem Mirrors.lift {m : CheckM α} {m' : CheckM β} (hm : UnitCheck.Mirrors I R m m') :
    Mirrors I R (liftM m : AnalysisM α) (liftM m' : AnalysisM β) :=
  fun _ _ _ _ h => hm h

theorem Mirrors.get :
    Mirrors I I (getThe Store : AnalysisM Store) (getThe Store : AnalysisM Store) :=
  fun _ _ _ _ h => ⟨h, h⟩

/-- What is logged plays no part. -/
theorem report_mirrors (ds ds' : List Diagnostic) :
    Mirrors I (fun _ _ => True) (report ds) (report ds') :=
  fun _ _ _ _ h => ⟨trivial, h⟩

theorem report_pure_mirrors {a : α} {b : β} (h : R a b) (ds ds' : List Diagnostic) :
    Mirrors I R (do report ds; return a : AnalysisM α) (do report ds'; return b : AnalysisM β) :=
  (report_mirrors ds ds').bind fun _ _ _ => .pure h

theorem reported_mirrors {t t' : Typed} (h : t'.type = t.type) :
    Mirrors I (fun a b => b = a) (reported t) (reported t') :=
  report_pure_mirrors h t.faults t'.faults

theorem Mirrors.discard (hm : Mirrors I R m m') :
    Mirrors I (fun _ _ => True) (discard m) (discard m') :=
  hm.bind fun _ _ _ => .pure trivial

theorem forM_mirrors {xs : List γ} {f f' : γ → AnalysisM Unit}
    (hf : ∀ x, Mirrors I (fun _ _ => True) (f x) (f' x)) :
    Mirrors I (fun _ _ => True) (xs.forM f) (xs.forM f') := by
  induction xs with
  | nil => exact .pure trivial
  | cons x rest ih => exact (hf x).bind fun _ _ _ => ih

end Analysis

end UnitCheck
