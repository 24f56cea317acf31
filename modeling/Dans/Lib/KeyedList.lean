import Mathlib.Data.List.Nodup
import Mathlib.Data.List.Pairwise
import Mathlib.Data.List.Perm.Basic
import Mathlib.Data.List.Sort

/-! Lists whose elements carry a key: erasing and finding an element by its key when no key repeats, sublists of
    a list in the order of its keys, and counting. -/

namespace KeyedList

variable {α κ : Type} [DecidableEq κ] {f : α → κ} {l : List α}

/-- Erasing the element with a key is filtering it out, when no key repeats. -/
theorem eraseP_eq_filter {k : κ} : ∀ {l : List α}, (l.map f).Nodup →
    l.eraseP (fun x => f x == k) = l.filter fun x => f x != k
  | [], _ => rfl
  | x :: l, hl => by
    simp only [List.map_cons, List.nodup_cons, List.mem_map, not_exists, not_and] at hl
    by_cases hx : f x = k
    · have hall : l.filter (fun y => f y != k) = l := by
        rw [List.filter_eq_self]
        intro y hy
        simpa [hx] using hl.1 y hy
      simp [hx, hall]
    · simp [hx, eraseP_eq_filter hl.2]

/-- Taking an element out is filtering out its key, when no key repeats. -/
theorem append_eq_filter {before after : List α} {x : α} (h : ((before ++ x :: after).map f).Nodup) :
    before ++ after = (before ++ x :: after).filter fun y => f y != f x := by
  simp only [List.map_append, List.map_cons, List.nodup_append, List.nodup_cons] at h
  obtain ⟨-, ⟨hafter, -⟩, hdisj⟩ := h
  have hb : before.filter (fun y => f y != f x) = before := by
    rw [List.filter_eq_self]
    intro y hy
    simpa using hdisj (f y) (List.mem_map_of_mem hy) (f x) List.mem_cons_self
  have ha : after.filter (fun y => f y != f x) = after := by
    rw [List.filter_eq_self]
    intro y hy
    have : f y ≠ f x := fun heq => hafter (heq ▸ List.mem_map_of_mem hy)
    simpa using this
  simp [List.filter_append, hb, ha]

/-- The element with a key is the one that a search for the key finds, when no key repeats. -/
theorem find?_key (h : (l.map f).Nodup) {x : α} (hx : x ∈ l) : l.find? (fun y => f y == f x) = some x := by
  cases hf : l.find? (fun y => f y == f x) with
  | none =>
    have := List.find?_eq_none.mp hf x hx
    simp at this
  | some y =>
    have hy : f y = f x := by simpa using List.find?_some hf
    rw [List.inj_on_of_nodup_map h (List.mem_of_find?_eq_some hf) hx hy]

/-- Two lists in the order of their keys: one that holds elements of the other only is a sublist of it. -/
theorem sublist_of_subset {f : α → Nat} {l₁ l₂ : List α} (h₁ : l₁.Pairwise fun x y => f x < f y)
    (h₂ : l₂.Pairwise fun x y => f x < f y) (hsub : l₁ ⊆ l₂) : l₁.Sublist l₂ := by
  have hanti : Std.Antisymm fun x y => f x < f y := ⟨fun _ _ hxy hyx => absurd hyx (Nat.lt_asymm hxy)⟩
  have hirrefl : Std.Irrefl fun x y => f x < f y := ⟨fun _ => Nat.lt_irrefl _⟩
  exact List.sublist_of_subperm_of_pairwise (List.subperm_of_subset h₁.nodup hsub) h₁ h₂

omit [DecidableEq κ] in
/-- An element that is counted at most once. -/
theorem eq_of_countP_le_one {p : α → Bool} (h : l.countP p ≤ 1) {x y : α} (hx : x ∈ l) (hy : y ∈ l) (px : p x = true)
    (py : p y = true) : y = x := by
  obtain ⟨before, after, rfl⟩ := List.append_of_mem hx
  rcases List.mem_append.mp hy with hy | hy
  · have := List.countP_pos_iff.mpr ⟨y, hy, py⟩
    simp only [List.countP_append, List.countP_cons, px, if_true] at h
    omega
  · rcases List.mem_cons.mp hy with heq | hy
    · exact heq
    · have := List.countP_pos_iff.mpr ⟨y, hy, py⟩
      simp only [List.countP_append, List.countP_cons, px, if_true] at h
      omega

omit [DecidableEq κ] in
theorem countP_eraseIdx {i : Nat} {x : α} (h : l[i]? = some x) (p : α → Bool) :
    (l.eraseIdx i).countP p + (if p x then 1 else 0) = l.countP p := by
  obtain ⟨hi, rfl⟩ := List.getElem?_eq_some_iff.mp h
  rw [← (List.getElem_cons_eraseIdx_perm hi).countP_eq p, List.countP_cons]

omit [DecidableEq κ] in
theorem mem_eraseIdx_of_ne {i : Nat} {x y : α} (h : l[i]? = some x) (hy : y ∈ l) (hne : y ≠ x) : y ∈ l.eraseIdx i := by
  obtain ⟨n, hn⟩ := List.mem_iff_getElem?.mp hy
  refine List.mem_eraseIdx_iff_getElem?.mpr ⟨n, ?_, hn⟩
  rintro rfl
  exact hne (Option.some.inj (hn.symm.trans h))

end KeyedList
