import Dans.Scheduler

/-! The scheduling priorities of the worker threads. The clamp `max(1, 90 - 30 p)` is computed in `unsigned`
    arithmetic, so it holds at the first four levels and fails where the subtraction wraps. -/

namespace Dans.Scheduler
open MachineInt

/-- The priority meant for the threads of level `l`, over the integers. -/
def clamped (l : Nat) : Int := max 1 (90 - 30 * (l : Int))

theorem clamped_range (l : Nat) : 1 ≤ clamped l ∧ clamped l ≤ 90 := by
  unfold clamped
  omega

theorem clamped_antitone {l l' : Nat} (hle : l ≤ l') : clamped l' ≤ clamped l := by
  unfold clamped
  omega

/-- A level whose product `p * 30` stays below 90, or has wrapped around to it. -/
def Unwrapped (l : Nat) : Prop := l < 4 ∨ l % 2 ^ 31 = 3

theorem wrapped_eq (l : Nat) : wrapped (l % 2 ^ 32) = (90 + 2 ^ 32 - l * 30 % 2 ^ 32) % 2 ^ 32 := by
  unfold wrapped
  dsimp only [Priority]
  omega

/-- The difference is even, so the conversion to `int` never makes it the 1 of the clamp. -/
theorem asInt_wrapped_ne (l : Nat) : asInt (wrapped (l % 2 ^ 32)) ≠ 1 := by
  rw [wrapped_eq]
  unfold asInt
  rw [Int.bmod_def]
  omega

theorem newPrio_eq_iff (l : Nat) : newPrio (l % 2 ^ 32) = clamped l ↔ Unwrapped l := by
  have hw := wrapped_eq l
  unfold newPrio clamped Unwrapped
  by_cases hsmall : l < 3
  · -- the difference over the integers is positive, and nothing wraps
    have hval : wrapped (l % 2 ^ 32) = 90 - 30 * l := by omega
    rw [hval, if_neg (by omega), asInt_of_lt (by omega)]
    omega
  · have hone : max 1 (90 - 30 * (l : Int)) = 1 := by omega
    rw [hone]
    by_cases hzero : wrapped (l % 2 ^ 32) < 1
    · rw [if_pos hzero]
      omega
    · rw [if_neg hzero]
      have hne := asInt_wrapped_ne l
      constructor
      · intro heq
        exact absurd heq hne
      · intro hcond
        omega

theorem startThreads_get (b : Bool) (threads : List Nat) : ∀ (p l : Nat), (startThreads b (p % 2 ^ 32) threads)[l]? =
    (threads[l]?).map fun n =>
      List.replicate n ⟨(p + l) % 2 ^ 32, if b then some (newPrio ((p + l) % 2 ^ 32)) else none⟩ := by
  induction threads with
  | nil =>
    intro p l
    simp [startThreads]
  | cons n threads ih =>
    intro p l
    cases l with
    | zero => simp [startThreads]
    | succ l =>
      have hnext : (p % 2 ^ 32 + 1) % 2 ^ 32 = (p + 1) % 2 ^ 32 := by omega
      have hsum : p + 1 + l = p + (l + 1) := by omega
      rw [startThreads, List.getElem?_cons_succ, List.getElem?_cons_succ, hnext, ih (p + 1) l, hsum]

/-- What `Run` leaves of a scheduler made for `threads` that sets thread priorities. -/
def started (threads : List Nat) : Option Scheduler := do
  let s ← new threads true
  let s ← s.linkMultiQ (some ())
  s.run

theorem started_get {threads : List Nat} (hne : threads ≠ []) : ∃ s, started threads = some s ∧ ∀ l : Nat, s.workers[l]? =
    (threads[l]?).map fun n => List.replicate n (Worker.mk (l % 2 ^ 32) (some (newPrio (l % 2 ^ 32)))) := by
  cases threads with
  | nil => exact absurd rfl hne
  | cons n rest =>
    refine ⟨_, rfl, ?_⟩
    intro l
    have hget := startThreads_get true (n :: rest) 0 l
    simpa using hget

/-- `Run` starts the threads of every level, and gives all of them the clamped priority exactly if no level with
    threads lies where the subtraction wraps; the priorities are then between 1 and 90 and do not rise with the level. -/
theorem started_clamped {threads : List Nat} (hne : threads ≠ []) : ∃ s, started threads = some s ∧
    (∀ l : Nat, (s.workers[l]?).map List.length = threads[l]?) ∧
    ((∀ (l : Nat) ws w, s.workers[l]? = some ws → w ∈ ws → w.schedulingPrio = some (clamped l)) ↔
      ∀ (l : Nat) n, threads[l]? = some n → 0 < n → Unwrapped l) ∧
    ((∀ (l : Nat) n, threads[l]? = some n → 0 < n → Unwrapped l) →
      ∀ (l : Nat) ws w, s.workers[l]? = some ws → w ∈ ws → ∃ k, w.schedulingPrio = some k ∧ 1 ≤ k ∧ k ≤ 90 ∧
        ∀ (l' : Nat) ws' w' k', s.workers[l']? = some ws' → w' ∈ ws' → w'.schedulingPrio = some k' → l ≤ l' → k' ≤ k) := by
  obtain ⟨s, hs, hget⟩ := started_get hne
  have hiff : (∀ (l : Nat) ws w, s.workers[l]? = some ws → w ∈ ws → w.schedulingPrio = some (clamped l)) ↔
      ∀ (l : Nat) n, threads[l]? = some n → 0 < n → Unwrapped l := by
    constructor
    · intro hall l n hn hpos
      have hws := hget l
      rw [hn] at hws
      have hprio := hall l _ _ hws (List.mem_replicate.mpr ⟨by omega, rfl⟩)
      exact (newPrio_eq_iff l).mp (Option.some.inj hprio)
    · intro hall l ws w hws hw
      rw [hget l] at hws
      obtain ⟨n, hn, rfl⟩ := Option.map_eq_some_iff.mp hws
      obtain ⟨hpos, rfl⟩ := List.mem_replicate.mp hw
      exact congrArg some ((newPrio_eq_iff l).mpr (hall l n hn (Nat.pos_of_ne_zero hpos)))
  refine ⟨s, hs, ?_, hiff, ?_⟩
  · intro l
    rw [hget l]
    cases threads[l]? <;> simp
  · intro hcond l ws w hws hw
    have hall := hiff.mpr hcond
    obtain ⟨hlow, hhigh⟩ := clamped_range l
    refine ⟨clamped l, hall l ws w hws hw, hlow, hhigh, ?_⟩
    intro l' ws' w' k' hws' hw' hk' hle
    rw [hall l' ws' w' hws' hw'] at hk'
    cases hk'
    exact clamped_antitone hle

theorem started_clamped_four : ([2, 1, 0, 1] : List Nat) ≠ [] ∧ ∃ s, started [2, 1, 0, 1] = some s ∧
    ∀ (l : Nat) ws w, s.workers[l]? = some ws → w ∈ ws → w.schedulingPrio = some (clamped l) := by
  obtain ⟨s, hs, -, hiff, -⟩ := @started_clamped [2, 1, 0, 1] (by simp)
  refine ⟨by simp, s, hs, hiff.mpr ?_⟩
  intro l n hn _
  have hlen := (List.getElem?_eq_some_iff.mp hn).1
  exact .inl (by simpa using hlen)

/-- At the fifth level the difference is `2 ^ 32 - 30`, which is not below 1 and is the `int` -30. -/
theorem started_wraps : ∃ s, started [1, 1, 1, 1, 1] = some s ∧
    s.workers[4]? = some [⟨4, some (-30)⟩] ∧ clamped 4 = 1 := by
  refine ⟨_, rfl, ?_, ?_⟩ <;> decide

end Dans.Scheduler
