import Mathlib.Logic.Function.Basic

/-! Program points of threads, and locks as sets of program points: a lock that is taken only while no
    thread holds it never has two holders. -/

namespace Exclusion

variable {τ κ : Type} {pc : τ → κ} {t : τ} {c : κ} {f g : κ → Prop}

/-- At most one thread is at a point of `f`. -/
def One (f : κ → Prop) (pc : τ → κ) : Prop := ∀ t u, f (pc t) → f (pc u) → t = u

/-- While a thread is at a point of `f`, none is at a point of `g`. -/
def Apart (f g : κ → Prop) (pc : τ → κ) : Prop := ∀ t u, f (pc t) → ¬g (pc u)

/-- The threads may all move, if only one of them comes to a point of `f`, when nobody is at one. -/
theorem One.of_step {pc' : τ → κ} {g : τ → Prop} (h : One f pc) (hg : ∀ t u, g t → g u → t = u)
    (hstep : ∀ t, f (pc' t) → f (pc t) ∨ g t ∧ ∀ u, ¬f (pc u)) : One f pc' := by
  intro t u ht hu
  rcases hstep t ht with ht | ⟨hgt, hnone⟩
  · rcases hstep u hu with hu | ⟨-, hnone⟩
    · exact h t u ht hu
    · exact absurd ht (hnone t)
  · rcases hstep u hu with hu | ⟨hgu, -⟩
    · exact absurd hu (hnone u)
    · exact hg t u hgt hgu

variable [DecidableEq τ]

/-- A thread may come to a point of `f` from one of `f`, or when nobody is at one. -/
theorem One.update (h : One f pc) (hc : f c → f (pc t) ∨ ∀ u, ¬f (pc u)) : One f (Function.update pc t c) := by
  have key : f c → ∀ u, u ≠ t → ¬f (pc u) := fun hfc u hu hfu => by
    rcases hc hfc with hft | hnone
    · exact hu (h u t hfu hft)
    · exact hnone u hfu
  intro u v hu hv
  by_cases hut : u = t <;> by_cases hvt : v = t
  · rw [hut, hvt]
  · rw [hut, Function.update_self] at hu
    rw [Function.update_of_ne hvt] at hv
    exact absurd hv (key hu v hvt)
  · rw [Function.update_of_ne hut] at hu
    rw [hvt, Function.update_self] at hv
    exact absurd hu (key hv u hut)
  · rw [Function.update_of_ne hut] at hu
    rw [Function.update_of_ne hvt] at hv
    exact h u v hu hv

/-- Whether anybody is at a point of `f` after thread `t` has moved. -/
theorem One.exists_update (h : One f pc) :
    (∃ u, f (Function.update pc t c u)) ↔ f c ∨ (∃ u, f (pc u)) ∧ ¬f (pc t) := by
  constructor
  · rintro ⟨u, hu⟩
    by_cases hut : u = t
    · rw [hut, Function.update_self] at hu
      exact Or.inl hu
    · rw [Function.update_of_ne hut] at hu
      exact Or.inr ⟨⟨u, hu⟩, fun ht => hut (h u t hu ht)⟩
  · rintro (hc | ⟨⟨u, hu⟩, ht⟩)
    · exact ⟨t, by rwa [Function.update_self]⟩
    · have hut : u ≠ t := fun heq => ht (heq ▸ hu)
      exact ⟨u, by rwa [Function.update_of_ne hut]⟩

/-- A thread may come to a point of `f` from one of `f`, or when nobody is at one of `g`, and likewise
    with the two exchanged. -/
theorem Apart.update (h : Apart f g pc) (hfg : ¬(f c ∧ g c)) (hf : f c → f (pc t) ∨ ∀ u, ¬g (pc u))
    (hg : g c → g (pc t) ∨ ∀ u, ¬f (pc u)) : Apart f g (Function.update pc t c) := by
  intro u v hu hv
  by_cases hut : u = t <;> by_cases hvt : v = t
  · rw [hut, Function.update_self] at hu
    rw [hvt, Function.update_self] at hv
    exact hfg ⟨hu, hv⟩
  · rw [hut, Function.update_self] at hu
    rw [Function.update_of_ne hvt] at hv
    rcases hf hu with hft | hnone
    · exact h t v hft hv
    · exact hnone v hv
  · rw [Function.update_of_ne hut] at hu
    rw [hvt, Function.update_self] at hv
    rcases hg hv with hgt | hnone
    · exact h u t hu hgt
    · exact hnone u hu
  · rw [Function.update_of_ne hut] at hu
    rw [Function.update_of_ne hvt] at hv
    exact h u v hu hv

end Exclusion
