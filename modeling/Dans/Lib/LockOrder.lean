import Mathlib.Order.WellFounded

/-! Shared and exclusive locks: who holds what, who waits for what, and the rule that threads which take locks in an
    order never wait for each other in a circle, also where a waiting writer keeps readers out. -/

namespace LockOrder

inductive Mode where
  | shared
  | exclusive
  deriving DecidableEq

/-- How each thread holds each lock, and the lock each thread is about to take. -/
structure Locking (τ lock : Type) where
  holds : τ → lock → Option Mode
  wants : τ → Option (lock × Mode)

variable {τ lock ρ : Type} {K : Locking τ lock} {t u : τ} {L : lock} {S : Set τ}

/-- Thread `u` keeps thread `t` from taking the lock `L`: it holds it in a mode that excludes the one wanted, or it
    queues to write where `t` wants to read. -/
inductive Blocks (K : Locking τ lock) (u t : τ) (L : lock) : Prop where
  | holder {m m' : Mode} (wants : K.wants t = some (L, m)) (holds : K.holds u L = some m')
      (excludes : m = .exclusive ∨ m' = .exclusive) : Blocks K u t L
  | writer (wants : K.wants t = some (L, .shared)) (queues : K.wants u = some (L, .exclusive)) : Blocks K u t L

/-- Thread `t` has to wait for `L`. -/
def Waits (K : Locking τ lock) (t : τ) (L : lock) : Prop := ∃ u, Blocks K u t L

/-- Thread `u` holds `L` or is about to take it. -/
def HoldsOrQueues (K : Locking τ lock) (u : τ) (L : lock) : Prop := (K.holds u L).isSome ∨ ∃ m, K.wants u = some (L, m)

/-- Each thread of the set waits for a lock that only threads of the set hold or queue for. -/
structure Deadlocked (K : Locking τ lock) (S : Set τ) : Prop where
  nonempty : S.Nonempty
  waits : ∀ t ∈ S, ∃ L, Waits K t L ∧ ∀ u, HoldsOrQueues K u L → u ∈ S

/-- A thread takes only locks that come after those it holds: their rank is lower. -/
def Ordered [LT ρ] (K : Locking τ lock) (rank : lock → ρ) : Prop :=
  ∀ t L m L' m', K.holds t L = some m → K.wants t = some (L', m') → rank L' < rank L

theorem Blocks.wants (h : Blocks K u t L) : ∃ m, K.wants t = some (L, m) := by
  cases h with
  | holder wants _ _ => exact ⟨_, wants⟩
  | writer wants _ => exact ⟨_, wants⟩

theorem Blocks.holdsOrQueues (h : Blocks K u t L) : HoldsOrQueues K u L := by
  cases h with
  | holder _ holds _ => exact Or.inl (by simp [holds])
  | writer _ queues => exact Or.inr ⟨_, queues⟩

/-- Threads that take locks in an order do not all wait for each other. -/
theorem Ordered.not_all_blocked [LT ρ] [WellFoundedLT ρ] {rank : lock → ρ} (h : Ordered K rank)
    (hS : S.Nonempty) : ¬∀ t ∈ S, ∃ u ∈ S, ∃ L, Blocks K u t L := by
  intro hblocked
  -- By induction on the rank: no thread of the set wants a lock of this rank.
  have hnone : ∀ r : ρ, ∀ t ∈ S, ∀ L m, K.wants t = some (L, m) → rank L ≠ r := by
    intro r
    induction r using WellFoundedLT.induction with
    | ind r ih =>
      rintro t ht L m hwants rfl
      have hholder : ∀ u ∈ S, ∀ m', K.holds u L ≠ some m' := by
        intro u hu m' hholds
        obtain ⟨v, -, L', hblocks⟩ := hblocked u hu
        obtain ⟨m'', hwants'⟩ := hblocks.wants
        exact ih (rank L') (h u L m' L' m'' hholds hwants') u hu L' m'' hwants' rfl
      obtain ⟨u, hu, L', hblocks⟩ := hblocked t ht
      cases hblocks with
      | holder hwants' hholds _ =>
        rw [hwants] at hwants'
        cases hwants'
        exact hholder u hu _ hholds
      | writer hwants' hqueues =>
        -- The writer is in the set, and what keeps it from writing is a holder.
        rw [hwants] at hwants'
        cases hwants'
        obtain ⟨v, hv, L'', hblocks'⟩ := hblocked u hu
        cases hblocks' with
        | holder hwants'' hholds _ =>
          rw [hqueues] at hwants''
          cases hwants''
          exact hholder v hv _ hholds
        | writer hwants'' _ =>
          rw [hqueues] at hwants''
          cases hwants''
  obtain ⟨t, ht⟩ := hS
  obtain ⟨u, -, L, hblocks⟩ := hblocked t ht
  obtain ⟨m, hwants⟩ := hblocks.wants
  exact hnone (rank L) t ht L m hwants rfl

/-- Threads that take locks in an order are never deadlocked. -/
theorem Ordered.not_deadlocked [LT ρ] [WellFoundedLT ρ] {rank : lock → ρ} (h : Ordered K rank) :
    ¬Deadlocked K S := by
  rintro ⟨hS, hwaits⟩
  refine h.not_all_blocked hS fun t ht => ?_
  obtain ⟨L, ⟨u, hblocks⟩, honly⟩ := hwaits t ht
  exact ⟨u, honly u hblocks.holdsOrQueues, L, hblocks⟩

end LockOrder
