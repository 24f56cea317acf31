import Dans.Lib.Tally

/-! Families of first-in first-out lists, one for each key: an element is pushed to the end of one list,
    popped from the front of one list, and dropped from all of them. -/

/-- One list for each key. -/
abbrev Fifo (κ α : Type) := κ → List α

namespace Fifo

variable {κ α : Type} [DecidableEq κ]

def empty : Fifo κ α := fun _ => []

/-- `x` goes to the end of the list of `k`. -/
def push (f : Fifo κ α) (k : κ) (x : α) : Fifo κ α := Function.update f k (f k ++ [x])

/-- `x` is the head of the list of `k`, and `g` is `f` without it. -/
def Pops (f : Fifo κ α) (k : κ) (x : α) (g : Fifo κ α) : Prop := ∃ rest, f k = x :: rest ∧ g = Function.update f k rest

/-- The lists without the elements that meet `d`; the others keep their order. -/
def drop (f : Fifo κ α) (d : α → Bool) : Fifo κ α := fun k => (f k).filter fun x => !d x

theorem push_apply (f : Fifo κ α) (k i : κ) (x : α) : f.push k x i = if i = k then f i ++ [x] else f i := by
  unfold push
  by_cases h : i = k
  · subst h
    simp
  · simp [h]

theorem mem_push {f : Fifo κ α} {i : κ} {y : α} (h : y ∈ f i) (k : κ) (x : α) : y ∈ f.push k x i := by
  rw [push_apply]
  split
  · exact List.mem_append_left _ h
  · exact h

theorem mem_push_self (f : Fifo κ α) (k : κ) (x : α) : x ∈ f.push k x k := by
  rw [push_apply, if_pos rfl]
  exact List.mem_append_right _ (List.mem_singleton_self x)

/-! ### What holds of all elements -/

def All (f : Fifo κ α) (P : α → Prop) : Prop := ∀ k, ∀ x ∈ f k, P x

section All

variable {f g : Fifo κ α} {k : κ} {x : α} {P : α → Prop}

theorem All.push (h : f.All P) (hx : P x) : (f.push k x).All P := by
  intro i y hy
  rw [push_apply] at hy
  split at hy
  · rcases List.mem_append.mp hy with hy | hy
    · exact h i y hy
    · rw [List.mem_singleton.mp hy]
      exact hx
  · exact h i y hy

theorem All.pops (h : f.All P) (hpops : f.Pops k x g) : P x ∧ g.All P := by
  obtain ⟨rest, hk, rfl⟩ := hpops
  refine ⟨h k x (by rw [hk]; exact List.mem_cons_self), fun i y hy => ?_⟩
  rw [Function.update_apply] at hy
  split at hy
  · exact h k y (by rw [hk]; exact List.mem_cons_of_mem _ hy)
  · exact h i y hy

end All

/-! ### Counting -/

/-- How many elements that meet `d` the lists of the given keys hold. -/
def count (f : Fifo κ α) (keys : Finset κ) (d : α → Bool) : Nat := ∑ k ∈ keys, (f k).countP d

variable {f g : Fifo κ α} {keys : Finset κ} {k : κ} {x : α} {d e : α → Bool}

theorem count_update (hk : k ∈ keys) (l : List α) :
    count (Function.update f k l) keys d + (f k).countP d = f.count keys d + l.countP d :=
  Tally.sum_update (List.countP d) hk

theorem count_push (hk : k ∈ keys) : (f.push k x).count keys d = f.count keys d + if d x then 1 else 0 := by
  have h := count_update (d := d) (f := f) hk (f k ++ [x])
  rw [List.countP_append, List.countP_singleton] at h
  unfold push
  omega

theorem count_pops (h : f.Pops k x g) (hk : k ∈ keys) : f.count keys d = g.count keys d + if d x then 1 else 0 := by
  obtain ⟨rest, hx, rfl⟩ := h
  have h := count_update (d := d) (f := f) hk rest
  rw [hx, List.countP_cons] at h
  omega

omit [DecidableEq κ] in
theorem count_pos (hk : k ∈ keys) (hx : x ∈ f k) (hd : d x = true) : 0 < f.count keys d := by
  have hone : 0 < (f k).countP d := List.countP_pos_iff.mpr ⟨x, hx, hd⟩
  exact hone.trans_le (Finset.single_le_sum (f := fun k => (f k).countP d) (fun _ _ => Nat.zero_le _) hk)

omit [DecidableEq κ] in
theorem count_le (h : ∀ k ∈ keys, (g k).Sublist (f k)) : g.count keys d ≤ f.count keys d :=
  Finset.sum_le_sum fun k hk => (h k hk).countP_le

omit [DecidableEq κ] in
theorem count_drop (h : ∀ k, ∀ x ∈ f k, e x = true → d x = false) : (f.drop d).count keys e = f.count keys e := by
  refine Finset.sum_congr rfl fun k _ => ?_
  rw [drop, List.countP_filter]
  refine List.countP_congr fun x hx => ?_
  simp only [Bool.and_eq_true, Bool.not_eq_eq_eq_not, Bool.not_true]
  exact ⟨And.left, fun he => ⟨he, h k x hx he⟩⟩

/-! ### Pushing a list of elements -/

/-- The elements go one after another to the lists of their keys. -/
def pushes (f : Fifo κ α) (key : α → κ) (xs : List α) : Fifo κ α := xs.foldl (fun f x => f.push (key x) x) f

variable {key : α → κ} {xs : List α}

@[simp] theorem pushes_nil (f : Fifo κ α) : f.pushes key [] = f := rfl

@[simp] theorem pushes_cons (f : Fifo κ α) (x : α) (xs : List α) :
    f.pushes key (x :: xs) = (f.push (key x) x).pushes key xs := rfl

theorem count_pushes (h : ∀ x ∈ xs, key x ∈ keys) : (f.pushes key xs).count keys d = f.count keys d + xs.countP d := by
  induction xs generalizing f with
  | nil => simp
  | cons x xs ih =>
    obtain ⟨hx, hxs⟩ := List.forall_mem_cons.mp h
    rw [pushes_cons, ih hxs, count_push hx, List.countP_cons]
    omega

/-- What is dropped after it was pushed leaves the lists as they were. -/
theorem drop_pushes (h : ∀ x ∈ xs, d x = true) : (f.pushes key xs).drop d = f.drop d := by
  induction xs generalizing f with
  | nil => rfl
  | cons x xs ih =>
    obtain ⟨hx, hxs⟩ := List.forall_mem_cons.mp h
    rw [pushes_cons, ih hxs]
    funext i
    simp only [drop, push_apply]
    split <;> simp [hx]

omit [DecidableEq κ] in
theorem drop_of_none (h : ∀ k, ∀ x ∈ f k, d x = false) : f.drop d = f := by
  funext k
  refine List.filter_eq_self.mpr fun x hx => ?_
  rw [h k x hx]
  rfl

omit [DecidableEq κ] in
theorem count_of_none (h : ∀ k, ∀ x ∈ f k, d x = false) : f.count keys d = 0 := by
  refine Finset.sum_eq_zero fun k _ => List.countP_eq_zero.mpr fun x hx => ?_
  rw [h k x hx]
  exact Bool.false_ne_true

end Fifo
