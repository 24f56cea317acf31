import Mathlib.Algebra.BigOperators.Group.Finset.Basic
import Mathlib.Algebra.BigOperators.Group.Finset.Piecewise
import Mathlib.Algebra.Order.BigOperators.Group.Finset
import Mathlib.Algebra.Ring.Nat

/-! Counting over a finite family, such as the program points of the threads: what the count becomes when one
    member changes. -/

namespace Tally

/-- What is counted in a list weighs at least as much as it counts. -/
theorem countP_le_sum {α : Type} {p : α → Bool} {g : α → Nat} (h : ∀ x, p x = true → 1 ≤ g x) :
    ∀ l : List α, l.countP p ≤ (l.map g).sum
  | [] => Nat.le_refl 0
  | x :: l => by
    have ih := countP_le_sum h l
    rw [List.countP_cons, List.map_cons, List.sum_cons]
    split
    · have hx := h x ‹_›
      omega
    · omega

variable {τ κ : Type} [DecidableEq τ] {pc : τ → κ} {t : τ} {c : κ}

theorem sum_update (f : κ → Nat) {s : Finset τ} (ht : t ∈ s) :
    (∑ u ∈ s, f (Function.update pc t c u)) + f (pc t) = (∑ u ∈ s, f (pc u)) + f c := by
  have hrest : ∑ u ∈ s.erase t, f (Function.update pc t c u) = ∑ u ∈ s.erase t, f (pc u) :=
    Finset.sum_congr rfl fun u hu => by rw [Function.update_of_ne (Finset.ne_of_mem_erase hu)]
  rw [← Finset.add_sum_erase s _ ht, ← Finset.add_sum_erase s _ ht, hrest, Function.update_self]
  omega

variable [Fintype τ]

/-- The sum of `f` over the points of the threads. -/
def tally (f : κ → Nat) (pc : τ → κ) : Nat := ∑ t, f (pc t)

omit [DecidableEq τ] in
/-- What is counted among the threads weighs at least as much as it counts. -/
theorem card_le_tally {p : κ → Prop} [DecidablePred p] {f : κ → Nat} (h : ∀ c, p c → 1 ≤ f c) (pc : τ → κ) :
    (Finset.univ.filter fun t => p (pc t)).card ≤ tally f pc := by
  rw [Finset.card_filter]
  refine Finset.sum_le_sum fun t _ => ?_
  split
  · exact h _ ‹_›
  · exact Nat.zero_le _

theorem tally_update (f : κ → Nat) (pc : τ → κ) (t : τ) (c : κ) :
    tally f (Function.update pc t c) + f (pc t) = tally f pc + f c :=
  sum_update f (Finset.mem_univ t)

omit [DecidableEq τ] in
theorem le_tally (f : κ → Nat) (pc : τ → κ) (t : τ) : f (pc t) ≤ tally f pc :=
  Finset.single_le_sum (f := fun t => f (pc t)) (fun _ _ => Nat.zero_le _) (Finset.mem_univ t)

theorem add_le_tally (f : κ → Nat) (pc : τ → κ) {t u : τ} (h : u ≠ t) : f (pc t) + f (pc u) ≤ tally f pc := by
  unfold tally
  rw [← Finset.add_sum_erase _ _ (Finset.mem_univ t)]
  exact Nat.add_le_add_left (Finset.single_le_sum (f := fun u => f (pc u)) (fun _ _ => Nat.zero_le _)
    (Finset.mem_erase.mpr ⟨h, Finset.mem_univ u⟩)) _

omit [DecidableEq τ] in
theorem exists_of_tally_pos {f : κ → Nat} (h : 0 < tally f pc) : ∃ t, 0 < f (pc t) := by
  by_contra hnone
  push Not at hnone
  have hzero : tally f pc = 0 := Finset.sum_eq_zero fun t _ => Nat.le_zero.mp (hnone t)
  omega

omit [DecidableEq τ] in
/-- At most one thread counts, and for one. -/
theorem tally_le_one {f : κ → Nat} (hone : ∀ t, f (pc t) ≤ 1) (h : ∀ t u, 0 < f (pc t) → 0 < f (pc u) → t = u) :
    tally f pc ≤ 1 := by
  by_cases hpos : 0 < tally f pc
  · obtain ⟨t, ht⟩ := exists_of_tally_pos hpos
    have hrest : ∀ u ∈ Finset.univ, u ≠ t → f (pc u) = 0 := fun u _ hu =>
      Nat.eq_zero_of_not_pos fun hupos => hu (h u t hupos ht)
    rw [tally, Finset.sum_eq_single_of_mem t (Finset.mem_univ t) hrest]
    exact hone t
  · exact (Nat.eq_zero_of_not_pos hpos).le.trans (Nat.zero_le 1)

end Tally
