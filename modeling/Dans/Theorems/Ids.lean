import Dans.Lib.Ghost
import Dans.JobIds

/-! Job ids. `CreateJobId` returns the value that the counter has when it is read, not the value its own increment
    produced: two ids are equal exactly if two calls read the counter with no increment in between. -/

namespace Dans.JobIdFactory
open MachineInt

variable {Tid : Type}

/-- Whether the counter has been incremented since it was last read. -/
def freshen (_ : Bool) (_ : Sys Tid) : Label Tid → Bool
  | .increment _ => true
  | .count _ => false

/-- The counter is read only after an increment that no call has read yet. -/
def readsFresh (fresh : Bool) (_ : Sys Tid) : Label Tid → Prop
  | .increment _ => True
  | .count _ => fresh = true

instance (fresh : Bool) (s : Sys Tid) : ∀ l, Decidable (readsFresh fresh s l)
  | .increment _ => inferInstanceAs (Decidable True)
  | .count _ => inferInstanceAs (Decidable (fresh = true))

/-- The ids returned are values that the counter has passed; its present value is among them if a call that has
    incremented it would now read what another has read. -/
structure Passed (fresh : Bool) (s : Sys Tid) : Prop where
  range : InInt s.lastId.count
  below : ∀ id ∈ s.returned, ∃ n, InInt n ∧ id = asUnsigned n ∧ n ≤ s.lastId.count ∧ (fresh = true → n < s.lastId.count)
  stale : fresh = false → ∀ t, s.incremented t = true → asUnsigned s.lastId.count ∈ s.returned

variable {s s' : Sys Tid} {fresh : Bool}

theorem Passed.mem_iff (h : Passed fresh s) {t : Tid} (ht : s.incremented t = true) :
    asUnsigned s.lastId.count ∈ s.returned ↔ fresh = false := by
  constructor
  · intro hmem
    obtain ⟨n, hn, hid, -, hlt⟩ := h.below _ hmem
    have hcount := (asUnsigned_inj h.range hn).mp hid
    refine (Bool.not_eq_true _).mp fun hf => ?_
    exact absurd (hlt hf) (by omega)
  · exact fun hf => h.stale hf t ht

variable [DecidableEq Tid]

/-- What the two steps do. -/
inductive Effect (s : Sys Tid) : Label Tid → Sys Tid → Prop where
  | increment {t : Tid} (range : InInt (s.lastId.count + 1)) : Effect s (.increment t)
      { s with lastId := ⟨s.lastId.count + 1⟩, incremented := Function.update s.incremented t true }
  | count {t : Tid} (incremented : s.incremented t = true) : Effect s (.count t)
      { s with incremented := Function.update s.incremented t false, returned := asUnsigned s.lastId.count :: s.returned }

theorem next_effect {l : Label Tid} (h : s.next l = some s') : Effect s l s' := by
  cases l with
  | increment t =>
    simp only [Sys.next, Counter.increment, Option.map_map] at h
    split at h
    · cases h
    · obtain ⟨n, hn, rfl⟩ := Option.map_eq_some_iff.mp h
      obtain ⟨hrange, rfl⟩ := checked_eq_some.mp hn
      exact .increment hrange
  | count t =>
    simp only [Sys.next] at h
    split at h
    · cases h
      exact .count ‹_›
    · cases h

theorem Passed.effect {l : Label Tid} (h : Passed fresh s) (he : Effect s l s') : Passed (freshen fresh s l) s' := by
  cases he with
  | increment range =>
    refine ⟨range, fun id hid => ?_, fun hf => by cases hf⟩
    obtain ⟨n, hn, rfl, hle, -⟩ := h.below id hid
    exact ⟨n, hn, rfl, by dsimp only; omega, fun _ => by dsimp only; omega⟩
  | count incremented =>
    refine ⟨h.range, fun id hid => ?_, fun _ _ _ => List.mem_cons_self⟩
    rcases List.mem_cons.mp hid with rfl | hid
    · exact ⟨_, h.range, rfl, Int.le_refl _, fun hf => by cases hf⟩
    · obtain ⟨n, hn, rfl, hle, -⟩ := h.below id hid
      exact ⟨n, hn, rfl, hle, fun hf => by cases hf⟩

theorem passed_of_run {seed : Nat} {xs : List (Sys Tid × Label Tid)} (run : (system Tid seed).Run xs s) :
    Passed (Lts.history freshen false xs) s := by
  induction run with
  | init =>
    refine ⟨?_, fun _ hid => (by cases hid), fun _ _ ht => (by cases ht)⟩
    simp only [system, Counter.new]
    exact inInt_asInt seed
  | step run next ih =>
    rw [Lts.history_snoc]
    exact ih.effect (next_effect next)

/-- The ids that calls return are pairwise distinct exactly if between any two reads of the counter it has been
    incremented. -/
theorem returned_nodup_iff {seed : Nat} {xs : List (Sys Tid × Label Tid)} (run : (system Tid seed).Run xs s) :
    s.returned.Nodup ↔ Lts.MeetsAfter freshen false readsFresh xs := by
  induction run with
  | init => exact iff_of_true List.nodup_nil .nil
  | @step xs s s' l run next ih =>
    rw [Lts.meetsAfter_snoc, ← ih]
    cases next_effect next with
    | increment _ => exact (and_iff_left trivial).symm
    | count incremented =>
      rw [List.nodup_cons, (passed_of_run run).mem_iff incremented, Bool.not_eq_false, and_comm]
      rfl

/-- Calls that overlap: each of two threads reads an increment of the other. -/
theorem returned_nodup_overlap : ∃ xs s, (system (Fin 2) 5).Run xs s ∧ s.returned = [8, 7] ∧ s.returned.Nodup := by
  obtain ⟨ys, x, run, -, hs⟩ := Lts.run_of_exec_any ((system (Fin 2) 5).guarded freshen false readsFresh)
    [.increment 0, .increment 1, .count 0, .increment 0, .count 1] (fun x => decide (x.1.returned = [8, 7])) (by decide)
  obtain ⟨xs, run, -, hok, -⟩ := run.of_guarded
  exact ⟨xs, x.1, run, of_decide_eq_true hs, (returned_nodup_iff run).mpr hok⟩

/-- Two threads increment and then both read: they return the same id. -/
theorem returned_twice : ∃ xs s, (system (Fin 2) 0).Run xs s ∧
    xs.map Prod.snd = [.increment 0, .increment 1, .count 0, .count 1] ∧ s.returned = [2, 2] := by
  obtain ⟨xs, s, run, hls, hs⟩ := Lts.run_of_exec_any (system (Fin 2) 0)
    [.increment 0, .increment 1, .count 0, .count 1] (fun s => decide (s.returned = [2, 2])) (by decide)
  exact ⟨xs, s, run, hls, of_decide_eq_true hs⟩

end Dans.JobIdFactory
