import Mathlib.Data.List.Induction
import Dans.Lib.Lts

/-! History variables: a value that is computed along a run from the steps taken, conditions on steps that look at
    it, and the rule that a property of value and state kept by every such step holds at the end of the run. -/

namespace Lts

variable {σ ℓ γ : Type} {A : Lts σ ℓ} {xs : List (σ × ℓ)} {s t : σ} {l : ℓ}

theorem Run.snoc_inv (run : A.Run (xs ++ [(s, l)]) t) : A.Run xs s ∧ A.next s l = some t := by
  generalize hys : xs ++ [(s, l)] = ys at run
  cases run with
  | init => simp at hys
  | step run next =>
    obtain ⟨rfl, hx⟩ := List.append_inj' hys rfl
    cases hx
    exact ⟨run, next⟩

/-- The steps of a run determine where it ends. -/
theorem Run.end_unique (run : A.Run xs s) (run' : A.Run xs t) : s = t := by
  induction run generalizing t with
  | init =>
    generalize hys : ([] : List (σ × ℓ)) = ys at run'
    cases run' with
    | init => rfl
    | step _ _ => simp at hys
  | step _ next _ => exact Option.some.inj (next.symm.trans run'.snoc_inv.2)

/-- The state in which a step of a run was taken was reached by the steps before it. -/
theorem Run.split {ys zs : List (σ × ℓ)} (run : A.Run xs t) (h : xs = ys ++ (s, l) :: zs) :
    A.Run ys s ∧ ∃ s', A.next s l = some s' := by
  induction zs using List.reverseRecOn generalizing xs t with
  | nil =>
    subst h
    obtain ⟨run, next⟩ := run.snoc_inv
    exact ⟨run, t, next⟩
  | append_singleton zs z ih =>
    obtain ⟨r, m⟩ := z
    have hxs : xs = (ys ++ (s, l) :: zs) ++ [(r, m)] := by simp [h]
    subst hxs
    exact ih run.snoc_inv.1 rfl

/-- The value of a history variable after the steps of a run. -/
def history (upd : γ → σ → ℓ → γ) (g : γ) (xs : List (σ × ℓ)) : γ := xs.foldl (fun g x => upd g x.1 x.2) g

@[simp] theorem history_nil (upd : γ → σ → ℓ → γ) (g : γ) : history upd g ([] : List (σ × ℓ)) = g := rfl

@[simp] theorem history_snoc (upd : γ → σ → ℓ → γ) (g : γ) :
    history upd g (xs ++ [(s, l)]) = upd (history upd g xs) s l := by
  simp [history]

/-- Every step of `xs` was taken where the value of the history variable and the state meet `ok`. -/
def MeetsAfter (upd : γ → σ → ℓ → γ) (g : γ) (ok : γ → σ → ℓ → Prop) (xs : List (σ × ℓ)) : Prop :=
  ∀ ys s l zs, xs = ys ++ (s, l) :: zs → ok (history upd g ys) s l

variable {upd : γ → σ → ℓ → γ} {g : γ} {ok : γ → σ → ℓ → Prop}

theorem MeetsAfter.of_append {ys : List (σ × ℓ)} (h : MeetsAfter upd g ok (xs ++ ys)) : MeetsAfter upd g ok xs :=
  fun zs s l ws hxs => h zs s l (ws ++ ys) (by simp [hxs])

theorem MeetsAfter.last (h : MeetsAfter upd g ok (xs ++ [(s, l)])) : ok (history upd g xs) s l := h xs s l [] rfl

theorem MeetsAfter.snoc (h : MeetsAfter upd g ok xs) (hl : ok (history upd g xs) s l) :
    MeetsAfter upd g ok (xs ++ [(s, l)]) := by
  intro ys r m zs hsplit
  induction zs using List.reverseRecOn with
  | nil =>
    obtain ⟨rfl, hx⟩ := List.append_inj' hsplit rfl
    cases hx
    exact hl
  | append_singleton zs z _ =>
    have hxs : xs ++ [(s, l)] = (ys ++ (r, m) :: zs) ++ [z] := by simp [hsplit]
    exact h ys r m zs (List.append_inj_left' hxs rfl)

theorem meetsAfter_snoc : MeetsAfter upd g ok (xs ++ [(s, l)]) ↔ MeetsAfter upd g ok xs ∧ ok (history upd g xs) s l :=
  ⟨fun h => ⟨h.of_append, h.last⟩, fun h => h.1.snoc h.2⟩

/-- A condition that does not look at the history. -/
theorem Meets.after {ok : σ → ℓ → Prop} (h : Meets ok xs) : MeetsAfter upd g (fun _ => ok) xs :=
  fun ys s l zs hxs => h (s, l) (by simp [hxs])

theorem MeetsAfter.nil : MeetsAfter upd g ok ([] : List (σ × ℓ)) := fun ys _ _ zs h => by simp at h

/-- A property of history and state that every step meeting `ok` keeps holds wherever such steps lead. -/
theorem Run.invariant_after {P : γ → σ → Prop} (run : A.Run xs s) (hok : MeetsAfter upd g ok xs) (init : P g A.init)
    (step : ∀ {xs h s l t}, A.Run xs s → P h s → ok h s l → A.next s l = some t → P (upd h s l) t) :
    P (history upd g xs) s := by
  induction run with
  | init => exact init
  | step run next ih =>
    rw [history_snoc]
    exact step run (ih hok.of_append) hok.last next

/-- The system with its history variable, taking only the steps that meet `ok`. -/
def guarded (A : Lts σ ℓ) (upd : γ → σ → ℓ → γ) (g : γ) (ok : γ → σ → ℓ → Prop) [∀ h s l, Decidable (ok h s l)] :
    Lts (σ × γ) ℓ where
  init := (A.init, g)
  next x l := if ok x.2 x.1 l then (A.next x.1 l).map fun s => (s, upd x.2 x.1 l) else none

theorem Run.of_guarded [∀ h s l, Decidable (ok h s l)] {ys : List ((σ × γ) × ℓ)} {x : σ × γ}
    (run : (A.guarded upd g ok).Run ys x) : ∃ xs, A.Run xs x.1 ∧ x.2 = history upd g xs ∧ MeetsAfter upd g ok xs ∧
      xs.map Prod.snd = ys.map Prod.snd := by
  induction run with
  | init => exact ⟨[], .init, rfl, .nil, rfl⟩
  | @step ys x y l run next ih =>
    obtain ⟨xs, hrun, hhist, hmeets, hls⟩ := ih
    simp only [guarded] at next
    split at next
    · next hok =>
      obtain ⟨t, ht, rfl⟩ := Option.map_eq_some_iff.mp next
      rw [hhist] at hok
      exact ⟨xs ++ [(x.1, l)], hrun.step ht, by rw [history_snoc, hhist], hmeets.snoc hok, by simp [hls]⟩
    · cases next

/-- What the steps of a run show, one after the other, is a history variable. -/
theorem history_flatMap (f : σ → ℓ → List γ) (xs : List (σ × ℓ)) :
    history (fun g s l => g ++ f s l) [] xs = xs.flatMap fun x => f x.1 x.2 := by
  induction xs using List.reverseRecOn with
  | nil => rfl
  | append_singleton xs x ih => rw [history_snoc, ih, List.flatMap_append, List.flatMap_singleton]

/-- A test of what the steps show and of the state that they lead to finds a run. -/
theorem run_of_shown_any (A : Lts σ ℓ) (f : σ → ℓ → List γ) (ls : List ℓ) (P : List γ → σ → Bool)
    (h : ((A.guarded (fun g s l => g ++ f s l) [] fun _ _ _ => True).exec ls).any (fun x => P x.2 x.1) = true) :
    ∃ xs s, A.Run xs s ∧ P (xs.flatMap fun x => f x.1 x.2) s = true := by
  obtain ⟨ys, x, run, -, hx⟩ := run_of_exec_any _ ls _ h
  obtain ⟨xs, run, hhistory, -⟩ := run.of_guarded
  rw [hhistory, history_flatMap] at hx
  exact ⟨xs, x.1, run, hx⟩

end Lts
