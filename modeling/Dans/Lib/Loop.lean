import Mathlib.Logic.Function.Basic

/-! Loops that end only from their body: a turn goes on with a new state or leaves with a result. -/

namespace Loop

variable {σ ρ : Type} {body : σ → σ ⊕ ρ} {s s' : σ}

/-- The loop, with a bound on its turns; `none` if it has not left by then. -/
def run (body : σ → σ ⊕ ρ) : Nat → σ → Option ρ
  | 0, _ => none
  | fuel + 1, s =>
    match body s with
    | .inl s' => run body fuel s'
    | .inr r => some r

theorem run_succ (h : body s = .inl s') (fuel : Nat) : run body (fuel + 1) s = run body fuel s' := by rw [run, h]

theorem run_leave {r : ρ} (h : body s = .inr r) (fuel : Nat) : run body (fuel + 1) s = some r := by rw [run, h]

/-- A turn in front of a loop that never leaves. -/
theorem run_none_of_step (h : body s = .inl s') (hnone : ∀ fuel, run body fuel s' = none) (fuel : Nat) :
    run body fuel s = none := by
  cases fuel with
  | zero => rfl
  | succ fuel => rw [run_succ h, hnone]

/-- A loop whose body stays where an invariant holds never leaves. -/
theorem run_eq_none {P : σ → Prop} (step : ∀ {s}, P s → ∃ s', body s = .inl s' ∧ P s') (fuel : Nat) :
    ∀ {s}, P s → run body fuel s = none := by
  induction fuel with
  | zero => exact fun _ => rfl
  | succ fuel ih =>
    intro s hs
    obtain ⟨s', hbody, hs'⟩ := step hs
    rw [run_succ hbody, ih hs']

end Loop
