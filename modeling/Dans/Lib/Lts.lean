import Mathlib.Logic.Function.Basic
import Mathlib.Logic.Relation

/-! Labelled transition systems with an executable step: runs, states reached, and the rule that a
    property kept by every step holds in every state reached. -/

/-- A transition system: its first state, and the state a label leads to where the label is enabled. -/
structure Lts (σ ℓ : Type) where
  init : σ
  next : σ → ℓ → Option σ

namespace Lts

variable {σ ℓ : Type} {A : Lts σ ℓ} {xs : List (σ × ℓ)} {s t : σ}

/-- A run of `A`: the steps taken, each label with the state it was taken in, and the state reached. -/
inductive Run (A : Lts σ ℓ) : List (σ × ℓ) → σ → Prop where
  | init : Run A [] A.init
  | step {xs : List (σ × ℓ)} {s t : σ} {l : ℓ} (run : Run A xs s) (next : A.next s l = some t) :
      Run A (xs ++ [(s, l)]) t

/-- Every step of `xs` was taken in a state that meets `ok`. -/
def Meets (ok : σ → ℓ → Prop) (xs : List (σ × ℓ)) : Prop := ∀ x ∈ xs, ok x.1 x.2

theorem Meets.of_append {ok : σ → ℓ → Prop} {ys : List (σ × ℓ)} (h : Meets ok (xs ++ ys)) :
    Meets ok xs ∧ Meets ok ys :=
  ⟨fun x hx => h x (List.mem_append_left _ hx), fun x hx => h x (List.mem_append_right _ hx)⟩

theorem meets_append {ok : σ → ℓ → Prop} {ys : List (σ × ℓ)} (hx : Meets ok xs) (hy : Meets ok ys) :
    Meets ok (xs ++ ys) := fun x h => by
  rcases List.mem_append.mp h with h | h
  · exact hx x h
  · exact hy x h

/-- A property of the first state that every step meeting `ok` keeps holds wherever such steps lead. -/
theorem Run.invariant {P : σ → Prop} {ok : σ → ℓ → Prop} (run : A.Run xs s) (hok : Meets ok xs) (init : P A.init)
    (step : ∀ {xs s l t}, A.Run xs s → P s → ok s l → A.next s l = some t → P t) : P s := by
  induction run with
  | init => exact init
  | step run next ih =>
    obtain ⟨hxs, hlast⟩ := hok.of_append
    exact step run (ih hxs) (hlast _ (List.mem_singleton_self _)) next

/-- A property of the first state that every step keeps holds in every state reached. -/
theorem Run.always {P : σ → Prop} (run : A.Run xs s) (init : P A.init)
    (step : ∀ {xs s l t}, A.Run xs s → P s → A.next s l = some t → P t) : P s := by
  have hall : Meets (fun _ _ => True) xs := fun _ _ => trivial
  exact run.invariant hall init fun run h _ next => step run h next

/-- The part of a run that another system takes part in: a step either is one of that system or leaves it alone. -/
theorem Run.project {τ κ : Type} {B : Lts τ κ} {f : σ → τ} {g : σ → ℓ → Option κ} (init : f A.init = B.init)
    (step : ∀ {s l t}, A.next s l = some t → (g s l).elim (f t = f s) fun m => B.next (f s) m = some (f t))
    (run : A.Run xs s) : B.Run (xs.filterMap fun x => (g x.1 x.2).map (f x.1, ·)) (f s) := by
  induction run with
  | init =>
    rw [init]
    exact .init
  | @step xs s t l run next ih =>
    have hstep := step next
    cases hg : g s l with
    | none =>
      rw [hg] at hstep
      simpa [hg, show f t = f s from hstep] using ih
    | some m =>
      rw [hg] at hstep
      simpa [hg] using ih.step hstep

/-- The state that the labels lead to from `s`, if each is enabled where it is taken. -/
def execFrom (A : Lts σ ℓ) (s : σ) : List ℓ → Option σ
  | [] => some s
  | l :: ls => (A.next s l).bind (A.execFrom · ls)

/-- The state that the labels lead to from the first state. -/
def exec (A : Lts σ ℓ) (ls : List ℓ) : Option σ := A.execFrom A.init ls

theorem Run.execFrom {ls : List ℓ} : ∀ {xs : List (σ × ℓ)} {s : σ}, A.Run xs s → A.execFrom s ls = some t →
    ∃ ys, A.Run (xs ++ ys) t ∧ ys.map Prod.snd = ls := by
  induction ls with
  | nil =>
    intro xs s run h
    cases h
    exact ⟨[], by simpa using run, rfl⟩
  | cons l ls ih =>
    intro xs s run h
    obtain ⟨u, hu, hrest⟩ := Option.bind_eq_some_iff.mp h
    obtain ⟨ys, hys, hls⟩ := ih (run.step hu) hrest
    exact ⟨(s, l) :: ys, by simpa using hys, by simp [hls]⟩

theorem execFrom_append (A : Lts σ ℓ) (ls ms : List ℓ) :
    ∀ s, A.execFrom s (ls ++ ms) = (A.execFrom s ls).bind (A.execFrom · ms) := by
  induction ls with
  | nil => exact fun s => rfl
  | cons l ls ih =>
    intro s
    simp only [List.cons_append, Lts.execFrom, Option.bind_assoc]
    exact congrArg _ (funext ih)

/-- Labels that can be executed from the first state are a run. -/
theorem run_of_exec {ls : List ℓ} (h : A.exec ls = some s) : ∃ xs, A.Run xs s ∧ xs.map Prod.snd = ls := by
  obtain ⟨ys, hys, hls⟩ := Run.init.execFrom h
  exact ⟨ys, by simpa using hys, hls⟩

/-- A test of the state that the labels lead to finds a state that is reached. -/
theorem run_of_exec_any (A : Lts σ ℓ) (ls : List ℓ) (P : σ → Bool) (h : (A.exec ls).any P = true) :
    ∃ xs s, A.Run xs s ∧ xs.map Prod.snd = ls ∧ P s = true := by
  obtain ⟨s, hs, hP⟩ := (Option.any_eq_true _ _).mp h
  obtain ⟨xs, run, hls⟩ := run_of_exec hs
  exact ⟨xs, s, run, hls, hP⟩

/-- A property that each of the labels keeps holds in the state that they lead to. -/
theorem execFrom_invariant {P : σ → Prop} : ∀ {ls : List ℓ} {s : σ},
    (∀ {s l t}, l ∈ ls → P s → A.next s l = some t → P t) → P s → A.execFrom s ls = some t → P t
  | [], s, _, hs, h => by
    cases h
    exact hs
  | l :: ls, s, step, hs, h => by
    obtain ⟨u, hu, hrest⟩ := Option.bind_eq_some_iff.mp h
    exact execFrom_invariant (fun hl => step (List.mem_cons_of_mem _ hl)) (step List.mem_cons_self hs hu) hrest

/-- Some labels lead from one state to the other. -/
def Leads (A : Lts σ ℓ) : σ → σ → Prop := Relation.ReflTransGen fun s t => ∃ l, A.next s l = some t

theorem Leads.refl : A.Leads s s := Relation.ReflTransGen.refl

theorem Leads.trans {u : σ} (h : A.Leads s t) (h' : A.Leads t u) : A.Leads s u := Relation.ReflTransGen.trans h h'

theorem Leads.step {u : σ} (h : A.Leads s t) (l : ℓ) (next : A.next t l = some u) : A.Leads s u :=
  Relation.ReflTransGen.tail h ⟨l, next⟩

theorem Run.leads (run : A.Run xs s) (h : A.Leads s t) : ∃ ys, A.Run ys t := by
  induction h with
  | refl => exact ⟨xs, run⟩
  | tail _ next ih =>
    obtain ⟨ys, run⟩ := ih
    obtain ⟨l, hl⟩ := next
    exact ⟨_, run.step hl⟩

/-- A property that every step keeps holds wherever the steps lead. -/
theorem Leads.invariant {P : σ → Prop} (h : A.Leads s t) (hs : P s)
    (step : ∀ {s l t}, P s → A.next s l = some t → P t) : P t := by
  induction h with
  | refl => exact hs
  | tail _ next ih =>
    obtain ⟨l, hl⟩ := next
    exact step ih hl

/-- Where every step lowers a rank, at most as many steps are taken as the rank tells. -/
theorem execFrom_ranked {P : σ → Prop} {r : σ → Nat}
    (step : ∀ {s l t}, P s → A.next s l = some t → P t ∧ r t < r s) :
    ∀ {ls : List ℓ} {s : σ}, P s → A.execFrom s ls = some t → P t ∧ r t + ls.length ≤ r s
  | [], s, hs, h => by
    cases h
    exact ⟨hs, Nat.le_refl _⟩
  | l :: ls, s, hs, h => by
    obtain ⟨u, hu, hrest⟩ := Option.bind_eq_some_iff.mp h
    obtain ⟨hPu, hlt⟩ := step hs hu
    obtain ⟨hPt, hle⟩ := execFrom_ranked step hPu hrest
    refine ⟨hPt, ?_⟩
    rw [List.length_cons]
    omega

/-- The system that takes only the steps that meet `ok`. -/
def restrict (A : Lts σ ℓ) (ok : σ → ℓ → Prop) [∀ s l, Decidable (ok s l)] : Lts σ ℓ where
  init := A.init
  next s l := if ok s l then A.next s l else none

theorem Run.of_restrict {ok : σ → ℓ → Prop} [∀ s l, Decidable (ok s l)] (run : (A.restrict ok).Run xs s) :
    A.Run xs s ∧ Meets ok xs := by
  induction run with
  | init => exact ⟨.init, fun _ hx => by cases hx⟩
  | @step xs s t l run next ih =>
    simp only [restrict] at next
    split at next
    · next hok =>
      refine ⟨ih.1.step next, meets_append ih.2 fun x hx => ?_⟩
      rw [List.mem_singleton.mp hx]
      exact hok
    · cases next

/-- A map of states that commutes with the steps meeting `ok` carries their executions over. -/
theorem exec_map {τ : Type} {B : Lts τ ℓ} {f : σ → τ} {ok : σ → ℓ → Prop} [∀ s l, Decidable (ok s l)]
    (init : B.init = f A.init) (next : ∀ s l, ok s l → B.next (f s) l = (A.next s l).map f) {ls : List ℓ}
    (h : (A.restrict ok).exec ls = some s) : B.exec ls = some (f s) := by
  have key : ∀ (ls : List ℓ) (r : σ), (A.restrict ok).execFrom r ls = some s → B.execFrom (f r) ls = some (f s) := by
    intro ls
    induction ls with
    | nil =>
      intro r hr
      cases hr
      rfl
    | cons l ls ih =>
      intro r hr
      obtain ⟨u, hu, hrest⟩ := Option.bind_eq_some_iff.mp hr
      simp only [restrict] at hu
      split at hu
      · next hok => simp [execFrom, next r l hok, hu, ih u hrest]
      · cases hu
  unfold exec
  rw [init]
  exact key ls A.init h

end Lts
