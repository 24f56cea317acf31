import Dans.Lib.Lts

/-! Atomic objects. A thread calls an operation, the operation takes effect at one instant, and the call returns what
    the effect gave. A system whose calls and returns are those of an atomic object is linearizable: the effects, in
    their order, are sequential calls that answer every thread as the system did, each between its call and its return. -/

namespace Atomic

variable {τ σ ω ρ : Type}

/-- What can be seen from outside: a thread calls an operation, or its call returns. -/
inductive Event (τ ω ρ : Type) where
  | call (t : τ) (op : ω)
  | ret (t : τ) (r : ρ)
  deriving DecidableEq

/-- Where a thread is with its call. -/
inductive Phase (ω ρ : Type) where
  | outside
  | called (op : ω)
  /-- The operation has taken effect; this is what the call is going to return. -/
  | done (r : ρ)

/-- The object, and where each thread is. -/
structure State (τ σ ω ρ : Type) where
  obj : σ
  phase : τ → Phase ω ρ

/-- An object that no thread has called yet. -/
def State.new (obj : σ) : State τ σ ω ρ := ⟨obj, fun _ => .outside⟩

variable [DecidableEq τ] {effect : σ → ω → ρ → σ → Prop}

/-- The steps of the object, and what they show. -/
inductive Step (effect : σ → ω → ρ → σ → Prop) (a : State τ σ ω ρ) : List (Event τ ω ρ) → State τ σ ω ρ → Prop where
  | call {t : τ} {op : ω} (phase : a.phase t = .outside) :
      Step effect a [.call t op] { a with phase := Function.update a.phase t (.called op) }
  | effect {t : τ} {op : ω} {r : ρ} {obj : σ} (phase : a.phase t = .called op) (effects : effect a.obj op r obj) :
      Step effect a [] ⟨obj, Function.update a.phase t (.done r)⟩
  | ret {t : τ} {r : ρ} (phase : a.phase t = .done r) :
      Step effect a [.ret t r] { a with phase := Function.update a.phase t .outside }

/-- Steps of the object that lead from one state to another, and the events they show, in order. -/
inductive Shows (effect : σ → ω → ρ → σ → Prop) (a : State τ σ ω ρ) : List (Event τ ω ρ) → State τ σ ω ρ → Prop where
  | refl : Shows effect a [] a
  | step {es es' : List (Event τ ω ρ)} {b c : State τ σ ω ρ} (shows : Shows effect a es b) (step : Step effect b es' c) :
      Shows effect a (es ++ es') c

variable {a b c : State τ σ ω ρ} {es es' : List (Event τ ω ρ)}

theorem Shows.single (h : Step effect a es b) : Shows effect a es b := by
  simpa using Shows.refl.step h

theorem Shows.trans (h : Shows effect a es b) (h' : Shows effect b es' c) : Shows effect a (es ++ es') c := by
  induction h' with
  | refl => simpa using h
  | step _ step ih =>
    rw [← List.append_assoc]
    exact ih.step step

/-- A call takes effect and returns at once. -/
theorem Shows.effect_ret {t : τ} {op : ω} {r : ρ} {obj : σ} (phase : a.phase t = .called op)
    (effects : effect a.obj op r obj) :
    Shows effect a [.ret t r] ⟨obj, Function.update a.phase t .outside⟩ := by
  have heffect : Shows effect a [] _ := .single (.effect phase effects)
  have hret := heffect.step (.ret (t := t) (r := r) (by simp))
  simpa using hret

/-- A system shows what an atomic object shows along a run whose steps meet `ok`, if each such step is answered by steps of
    the object that show the same and keep a relation between the two states. -/
theorem shows_of_run {ς ℓ : Type} {A : Lts ς ℓ} {xs : List (ς × ℓ)} {s : ς} {obj : σ} {ok : ς → ℓ → Prop}
    (observe : ς → ℓ → List (Event τ ω ρ)) (R : ς → State τ σ ω ρ → Prop) (init : R A.init (.new obj))
    (step : ∀ {xs s l s' a}, A.Run xs s → Lts.Meets ok xs → R s a → A.next s l = some s' →
      ∃ a', Shows effect a (observe s l) a' ∧ R s' a')
    (run : A.Run xs s) (hok : Lts.Meets ok xs) :
    ∃ a, Shows effect (.new obj) (xs.flatMap fun x => observe x.1 x.2) a ∧ R s a := by
  induction run with
  | init => exact ⟨_, .refl, init⟩
  | step run next ih =>
    obtain ⟨hbefore, -⟩ := hok.of_append
    obtain ⟨a, hshows, hR⟩ := ih hbefore
    obtain ⟨a', hstep, hR'⟩ := step run hbefore hR next
    refine ⟨a', ?_, hR'⟩
    simpa using hshows.trans hstep

end Atomic
