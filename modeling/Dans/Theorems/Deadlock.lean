import Dans.Lib.LockOrder
import Dans.ThrottlerThreads
import Dans.Theorems.ThreadSteps

/-! The locks of the queue and of the throttler are taken in one order: `_state_lock`, `_purge_shared_mutex`, one of
    `_pq_mutexes`, `_value_map_mutex`. -/

namespace Dans.ThrottleThreads
open MultiQueue LockOrder

variable {Tid T : Type}

/-! ### Who holds and who waits -/

inductive Lock where
  | state
  | purge
  | queue (prio : Priority)
  | map
  deriving DecidableEq

/-- How many kinds of locks can be taken after it. -/
def Lock.rank : Lock → Nat
  | state => 3
  | purge => 2
  | queue _ => 1
  | map => 0

/-- How a thread at this point of the queue holds a lock. -/
def queueHolds (c : Threads.Pc T) : Lock → Option Mode
  | .state => none
  | .purge => if c.exclusive then some .exclusive else if c.shared then some .shared else none
  | .queue p => if c.queueLock = some p then some .exclusive else none
  | .map => if c.mapLock then some .exclusive else none

/-- The lock that a thread at this point of the queue takes next. Beyond the last priority it stops the process
    instead. -/
def queueWants (maxPrio : Priority) : Threads.Pc T → Option (Lock × Mode)
  | .enqPurge _ | .deqPurge _ => some (.purge, .shared)
  | .purgeLock _ | .oneLock _ | .allLock => some (.purge, .exclusive)
  | .enqQueue job => if job.priority ≤ maxPrio then some (.queue job.priority, .exclusive) else none
  | .deqQueue p => some (.queue p, .exclusive)
  | .oneQueue p => if p ≤ maxPrio then some (.queue p, .exclusive) else none
  | .enqMapLock _ _ | .deqMapLock _ _ => some (.map, .exclusive)
  | _ => none

/-- The locks that the threads hold and wait for. -/
def Sys.locking (s : Sys Tid T) : Locking Tid Lock where
  holds t
    | .state => if (s.pc t).locked then some .exclusive else none
    | L => queueHolds (s.queue.pc t) L
  wants t := if (s.pc t).entering then some (.state, .exclusive) else queueWants s.queue.q.maxPrio (s.queue.pc t)

/-- What a thread inside the queue wants, and what it does not hold then. -/
theorem queueWants_cases {c : Threads.Pc T} {maxPrio : Priority} {L : Lock} {m : Mode}
    (wants : queueWants maxPrio c = some (L, m)) :
    L = .purge ∧ (∀ L', queueHolds c L' = none) ∨ (∃ p, L = .queue p) ∧ c.queueLock = none ∧ c.mapLock = false ∨
      L = .map ∧ c.mapLock = false := by
  cases c with
  | enqPurge _ | deqPurge _ | purgeLock _ | oneLock _ | allLock =>
    cases wants
    exact Or.inl ⟨rfl, fun L' => by cases L' <;> rfl⟩
  | enqQueue _ | oneQueue _ =>
    simp only [queueWants] at wants
    split at wants <;> cases wants
    exact Or.inr (Or.inl ⟨⟨_, rfl⟩, rfl, rfl⟩)
  | deqQueue _ =>
    cases wants
    exact Or.inr (Or.inl ⟨⟨_, rfl⟩, rfl, rfl⟩)
  | enqMapLock _ _ | deqMapLock _ _ =>
    cases wants
    exact Or.inr (Or.inr ⟨rfl, rfl⟩)
  | idle _ | enqInsert _ | enqMap _ _ | deqGate _ | deqFlag _ | deqTest _ | deqPop _ | deqMap _ _ | purgeBody _ | oneBody _
  | allBody => cases wants

theorem rank_lt_of_queueHolds {c : Threads.Pc T} {maxPrio : Priority} {L L' : Lock} {m m' : Mode}
    (holds : queueHolds c L = some m) (wants : queueWants maxPrio c = some (L', m')) : L'.rank < L.rank := by
  rcases queueWants_cases wants with ⟨-, hnone⟩ | ⟨⟨p, rfl⟩, hqueue, hmap⟩ | ⟨rfl, hmap⟩
  · rw [hnone L] at holds
    cases holds
  · cases L with
    | state => cases holds
    | purge => exact Nat.lt_add_one 1
    | queue p' => simp [queueHolds, hqueue] at holds
    | map => simp [queueHolds, hmap] at holds
  · cases L with
    | state => cases holds
    | purge => exact Nat.zero_lt_two
    | queue p' => exact Nat.zero_lt_one
    | map => simp [queueHolds, hmap] at holds

/-! ### Inside and outside the queue -/

/-- A thread that is not inside an operation of the queue is idle there. -/
def Inside (s : Sys Tid T) : Prop := ∀ t, (s.pc t).inQueue = false → (s.queue.pc t).isIdle = true

theorem Pc.of_entering {c : Pc T} (h : c.entering = true) : c.locked = false ∧ c.inQueue = false := by
  cases c with
  | throttle c => cases c <;> simp_all [entering, locked, inQueue, Throttle.Pc.locked]
  | setting _ _ => exact ⟨rfl, rfl⟩
  | releasing _ | set _ _ | direct => cases h

theorem queueHolds_idle {c : Threads.Pc T} (h : c.isIdle = true) (L : Lock) : queueHolds c L = none := by
  cases c with
  | idle _ => cases L <;> rfl
  | _ => cases h

theorem queueWants_idle {c : Threads.Pc T} (h : c.isIdle = true) (maxPrio : Priority) : queueWants maxPrio c = none := by
  cases c with
  | idle _ => rfl
  | _ => cases h

theorem ordered_of_inside {s : Sys Tid T} (h : Inside s) : Ordered s.locking Lock.rank := by
  intro t L m L' m' holds wants
  simp only [Sys.locking] at wants
  split at wants
  · next hentering =>
    -- A thread in front of `_state_lock` is not inside the queue and holds nothing.
    obtain ⟨hlocked, hqueue⟩ := Pc.of_entering hentering
    have hnone := queueHolds_idle (h t hqueue)
    cases L with
    | state => simp [Sys.locking, hlocked] at holds
    | purge | queue _ | map => simp [Sys.locking, hnone] at holds
  · cases L with
    | state =>
      rcases queueWants_cases wants with ⟨rfl, -⟩ | ⟨⟨p, rfl⟩, -⟩ | ⟨rfl, -⟩
      · exact Nat.lt_add_one 2
      · exact Nat.lt_trans Nat.one_lt_two (Nat.lt_add_one 2)
      · exact Nat.zero_lt_succ 2
    | purge | queue _ | map => exact rank_lt_of_queueHolds holds wants

variable [Fintype Tid] [DecidableEq Tid] {s s' : Sys Tid T} {l : Label Tid T} {t : Tid}

def Label.thread : Label Tid T → Tid
  | dequeue t _ | complete t _ | setThrottle t _ _ | queueOp t _ | step t => t

/-- A thread moves outside the queue, calls an operation of the queue, or takes a step inside it. -/
inductive Moves (s : Sys Tid T) (t : Tid) (s' : Sys Tid T) : Prop where
  | stops (pc : s'.pc = s.pc) (queue : s'.queue = s.queue)
  | goes {c : Pc T} (pc : s'.pc = Function.update s.pc t c) (queue : s'.queue = s.queue) (target : c.inQueue = false)
      (idle : (s.pc t).inQueue = true → (s.queue.pc t).isIdle = true)
  | calls {c : Pc T} {op : Op T} (pc : s'.pc = Function.update s.pc t c) (target : c.inQueue = true)
      (queue : s.queue.next (.call t op) = some s'.queue)
  | steps (pc : s'.pc = s.pc) (inside : (s.pc t).inQueue = true) (queue : s.queue.next (.step t) = some s'.queue)

theorem moves_callQueue {op : Op T} {c : Pc T} {r : Sys Tid T} (h : r.callQueue t op c = some s') (hpc : r.pc = s.pc)
    (hqueue : r.queue = s.queue) (target : c.inQueue = true) : Moves s t s' := by
  obtain ⟨q, hq, rfl⟩ := Option.map_eq_some_iff.mp h
  exact .calls (c := c) (by simp [Sys.goto, hpc]) target (hqueue ▸ hq)

theorem moves_stepQueue (inside : (s.pc t).inQueue = true) (h : s.stepQueue t = some s') : Moves s t s' := by
  obtain ⟨q, hq, rfl⟩ := Option.map_eq_some_iff.mp h
  exact .steps rfl inside hq

theorem moves_goto {c : Pc T} (target : c.inQueue = false) (idle : (s.pc t).inQueue = true → (s.queue.pc t).isIdle = true) :
    Moves s t (s.goto t c) := .goes rfl rfl target idle

theorem moves_adjustLow {d : Throttle.Decision} {high : Int} {attempted : Bool} (outside : (s.pc t).inQueue = false)
    (h : s.adjustLow t d high attempted = some s') : Moves s t s' := by
  have idle : (s.pc t).inQueue = true → (s.queue.pc t).isIdle = true := fun hin => by simp [outside] at hin
  unfold Sys.adjustLow at h
  split at h
  · split at h
    · split at h
      · exact moves_callQueue h rfl rfl rfl
      · cases h
        exact moves_goto rfl idle
    · cases h
      exact moves_goto rfl idle
  · split at h
    · cases h
      exact .goes rfl rfl rfl idle
    · cases h
      exact moves_goto rfl idle

/-- A thread inside the queue goes on there until the operation has returned. -/
theorem moves_inQueue {c : Pc T} (inside : (s.pc t).inQueue = true) (target : c.inQueue = false)
    (h : (if (s.queue.pc t).isIdle then some (s.goto t c) else s.stepQueue t) = some s') : Moves s t s' := by
  split at h
  · next hidle =>
    cases h
    exact moves_goto target fun _ => hidle
  · exact moves_stepQueue inside h

theorem moves_step (h : s.step t = some s') : Moves s t s' := by
  have idle : (s.pc t).inQueue = false → (s.pc t).inQueue = true → (s.queue.pc t).isIdle = true := fun hout hin => by
    simp [hout] at hin
  unfold Sys.step at h
  split at h
  case h_1 hpc => cases h
  case h_2 p hpc =>
    split at h
    · exact moves_callQueue h rfl rfl rfl
    · cases h
  case h_3 p hpc =>
    split at h
    · next hret =>
      cases h
      exact moves_goto rfl fun _ => by simp [hret, Threads.Pc.isIdle]
    · next hret =>
      cases h
      exact moves_goto rfl fun _ => by simp [hret, Threads.Pc.isIdle]
    · cases h
    · exact moves_stepQueue (by simp [hpc, Pc.inQueue]) h
  case h_4 p job hpc =>
    cases h
    unfold Sys.makeJob
    split
    · exact .goes rfl rfl rfl (idle (by simp [hpc, Pc.inQueue]))
    · exact .stops rfl rfl
  case h_5 d hpc =>
    split at h
    · cases h
      cases d <;> exact .goes rfl rfl rfl (idle (by simp [hpc, Pc.inQueue]))
    · cases h
  case h_6 d hpc | h_7 d count hpc =>
    cases h
    exact moves_goto rfl (idle (by simp [hpc, Pc.inQueue]))
  case h_8 d high hpc =>
    split at h <;> cases h <;> exact .goes rfl rfl rfl (idle (by simp [hpc, Pc.inQueue]))
  case h_9 d high attempted hpc => exact moves_adjustLow (by simp [hpc, Pc.inQueue]) h
  case h_10 d hpc => exact moves_inQueue (by simp [hpc, Pc.inQueue]) rfl h
  case h_11 p threshold hpc =>
    split at h
    · cases h
      exact moves_goto rfl (idle (by simp [hpc, Pc.inQueue]))
    · cases h
  case h_12 p threshold hpc =>
    cases h
    unfold Sys.setThrottle
    dsimp only
    split <;> exact .goes rfl rfl rfl (idle (by simp [hpc, Pc.inQueue]))
  case h_13 hpc => exact moves_inQueue (by simp [hpc, Pc.inQueue]) rfl h

theorem next_moves (h : s.next l = some s') : Moves s l.thread s' := by
  unfold Sys.next at h
  split at h
  · cases h
  · cases l with
    | step t => exact moves_step h
    | dequeue t p | setThrottle t p threshold =>
      dsimp only at h
      split at h
      · next hpc =>
        split at h <;> cases h
        exact moves_goto rfl fun hin => by simp [Label.thread, hpc, Pc.inQueue] at hin
      · cases h
    | complete t serial =>
      dsimp only at h
      split at h
      · next hpc =>
        unfold Sys.complete at h
        split at h
        · split at h <;> cases h
          exact .goes rfl rfl rfl fun hin => by simp [Label.thread, hpc, Pc.inQueue] at hin
        · cases h
      · cases h
    | queueOp t op =>
      dsimp only at h
      split at h
      · exact moves_callQueue h rfl rfl rfl
      · cases h

theorem queue_pc_other {q q' : Threads.Sys Tid T} {lq : Threads.Label Tid T} {u : Tid} (h : q.next lq = some q')
    (hl : (∃ op, lq = .call t op) ∨ lq = .step t) (hu : u ≠ t) : q'.pc u = q.pc u := by
  have hother : ∀ c, Function.update q.pc t c u = q.pc u := fun c => Function.update_of_ne hu c q.pc
  rcases hl with ⟨op, rfl⟩ | rfl <;> cases Threads.next_effect h <;>
    simp [Threads.Sys.goto, Threads.Sys.become, Threads.Sys.fail, hother]

theorem Inside.moves (h : Inside s) (hm : Moves s t s') : Inside s' := by
  intro u hu
  cases hm with
  | stops pc queue =>
    rw [pc] at hu
    rw [queue]
    exact h u hu
  | goes pc queue target idle =>
    rw [pc, Function.update_apply] at hu
    rw [queue]
    split at hu
    · next hut =>
      subst hut
      cases hin : (s.pc u).inQueue with
      | false => exact h u hin
      | true => exact idle hin
    · exact h u hu
  | calls pc target queue =>
    rw [pc, Function.update_apply] at hu
    split at hu
    · rw [target] at hu
      cases hu
    · next hut =>
      rw [queue_pc_other queue (Or.inl ⟨_, rfl⟩) hut]
      exact h u hu
  | steps pc inside queue =>
    rw [pc] at hu
    have hut : u ≠ t := by
      rintro rfl
      rw [inside] at hu
      cases hu
    rw [queue_pc_other queue (Or.inr rfl) hut]
    exact h u hu

theorem inside_of_run {maxPriority : Priority} {targets : Fin 2 → Int} {xs : List (Sys Tid T × Label Tid T)}
    (run : (system Tid T maxPriority targets).Run xs s) : Inside s := by
  induction run with
  | init => exact fun _ _ => rfl
  | step _ next ih => exact ih.moves (next_moves next)

/-! ### Waiting, as the steps have it -/

/-- Some thread holds the lock in a mode that excludes `m`. -/
def Excluded (K : Locking Tid Lock) (L : Lock) (m : Mode) : Prop :=
  ∃ u m', K.holds u L = some m' ∧ (m = .exclusive ∨ m' = .exclusive)

omit [Fintype Tid] [DecidableEq Tid] in
theorem excluded_state : Excluded s.locking .state .exclusive ↔ ¬s.StateFree := by
  simp [Excluded, Sys.locking, Sys.StateFree]

omit [Fintype Tid] [DecidableEq Tid] in
theorem excluded_shared : Excluded s.locking .purge .shared ↔ ¬s.queue.NoWriter := by
  simp only [Excluded, Sys.locking, queueHolds, Threads.Sys.NoWriter, not_forall, Bool.not_eq_false]
  constructor
  · rintro ⟨u, m', hholds, hexcl⟩
    refine ⟨u, ?_⟩
    split at hholds
    · assumption
    · split at hholds <;> cases hholds
      simp at hexcl
  · rintro ⟨u, hu⟩
    exact ⟨u, .exclusive, by simp [hu], Or.inr rfl⟩

omit [Fintype Tid] [DecidableEq Tid] in
theorem excluded_purge : Excluded s.locking .purge .exclusive ↔ ¬s.queue.NoPurgeLock := by
  simp only [Excluded, Sys.locking, queueHolds, Threads.Sys.NoPurgeLock, true_or, and_true, not_forall]
  refine exists_congr fun u => ?_
  cases (s.queue.pc u).exclusive <;> cases (s.queue.pc u).shared <;> simp

omit [Fintype Tid] [DecidableEq Tid] in
theorem excluded_queue (p : Priority) : Excluded s.locking (.queue p) .exclusive ↔ ¬s.queue.QueueFree p := by
  simp [Excluded, Sys.locking, queueHolds, Threads.Sys.QueueFree]

omit [Fintype Tid] [DecidableEq Tid] in
theorem excluded_map : Excluded s.locking .map .exclusive ↔ ¬s.queue.MapFree := by
  simp [Excluded, Sys.locking, queueHolds, Threads.Sys.MapFree]

/-- A thread inside the queue that is about to take a lock waits exactly while the lock is held in a mode that excludes
    its own. -/
theorem queue_step_eq_none {L : Lock} {m : Mode} (wants : queueWants s.queue.q.maxPrio (s.queue.pc t) = some (L, m)) :
    s.queue.step t = none ↔ Excluded s.locking L m := by
  unfold Threads.Sys.step
  cases hpc : s.queue.pc t with
  | enqPurge _ | deqPurge _ =>
    rw [hpc] at wants
    cases wants
    simp [excluded_shared]
  | purgeLock _ | oneLock _ | allLock =>
    rw [hpc] at wants
    cases wants
    simp [excluded_purge]
  | enqQueue _ | oneQueue _ =>
    simp only [hpc, queueWants] at wants
    split at wants <;> cases wants
    next hrange => simp [excluded_queue, hrange]
  | deqQueue _ =>
    rw [hpc] at wants
    cases wants
    simp [excluded_queue]
  | enqMapLock _ _ | deqMapLock _ _ =>
    rw [hpc] at wants
    cases wants
    simp [excluded_map]
  | idle _ | enqInsert _ | enqMap _ _ | deqGate _ | deqFlag _ | deqTest _ | deqPop _ | deqMap _ _ | purgeBody _ | oneBody _
  | allBody =>
    rw [hpc] at wants
    cases wants

theorem step_inQueue (inside : (s.pc t).inQueue = true) (busy : (s.queue.pc t).isIdle = false) :
    s.step t = s.stepQueue t := by
  unfold Sys.step
  cases hpc : s.pc t with
  | releasing _ | direct => simp [busy]
  | setting _ _ | set _ _ =>
    rw [hpc] at inside
    cases inside
  | throttle c =>
    rw [hpc] at inside
    cases c with
    | queue p =>
      cases hq : s.queue.pc t with
      | idle _ =>
        rw [hq] at busy
        cases busy
      | _ => rfl
    | _ => cases inside

theorem step_entering (entering : (s.pc t).entering = true) : s.step t = none ↔ ¬s.StateFree := by
  unfold Sys.step
  cases hpc : s.pc t with
  | setting p threshold => simp
  | releasing _ | direct | set _ _ =>
    rw [hpc] at entering
    cases entering
  | throttle c =>
    rw [hpc] at entering
    cases c with
    | enter d => simp
    | _ => cases entering

/-- In a process that has not stopped, a thread that is about to take a lock waits exactly while the lock is held in a
    mode that excludes its own. -/
theorem step_eq_none_iff (inside : Inside s) (habort : s.abort = none) (hfault : s.queue.fault = none) {L : Lock} {m : Mode}
    (wants : s.locking.wants t = some (L, m)) : s.next (.step t) = none ↔ Excluded s.locking L m := by
  have hnext : s.next (.step t) = s.step t := by simp [Sys.next, habort, hfault]
  rw [hnext]
  simp only [Sys.locking] at wants
  split at wants
  · next hentering =>
    cases wants
    rw [step_entering hentering, excluded_state]
  · have busy : (s.queue.pc t).isIdle = false := by
      refine Bool.eq_false_of_not_eq_true fun hidle => ?_
      rw [queueWants_idle hidle] at wants
      cases wants
    have hin : (s.pc t).inQueue = true := by
      refine Bool.eq_true_of_not_eq_false fun hout => ?_
      rw [inside t hout] at busy
      cases busy
    rw [step_inQueue hin busy, ← queue_step_eq_none wants]
    simp [Sys.stepQueue, Threads.Sys.next, hfault]

/-- No state reached has a set of threads each of which waits for a lock that only threads of the set hold or queue
    for. -/
theorem locks_not_deadlocked {maxPriority : Priority} {targets : Fin 2 → Int} {xs : List (Sys Tid T × Label Tid T)}
    (run : (system Tid T maxPriority targets).Run xs s) (S : Set Tid) : ¬Deadlocked s.locking S :=
  (ordered_of_inside (inside_of_run run)).not_deadlocked

/-- A thread in `SetThrottle` waits for one that decides, which waits in `ReleaseOne` for one that enqueues. -/
theorem locks_not_deadlocked_chain : ∃ xs s, (system (Fin 3) Nat 1 (fun _ => 1)).Run xs s ∧
    Blocks s.locking 0 2 .state ∧ Blocks s.locking 1 0 .purge ∧ ∀ S, ¬Deadlocked s.locking S := by
  obtain ⟨xs, s, run, -, hs⟩ := Lts.run_of_exec_any (system (Fin 3) Nat 1 (fun _ => 1))
    (.queueOp 1 (.enqueue ⟨7, 0, 0, 5⟩) :: List.replicate 6 (.step 1) ++
      .dequeue 0 0 :: List.replicate 16 (.step 0) ++
      [.queueOp 1 (.enqueue ⟨8, 0, 0, 6⟩), .step 1, .setThrottle 2 0 4])
    (fun s => decide (s.locking.wants 2 = some (.state, .exclusive) ∧ s.locking.holds 0 .state = some .exclusive ∧
      s.locking.wants 0 = some (.purge, .exclusive) ∧ s.locking.holds 1 .purge = some .shared)) (by decide)
  obtain ⟨hwants, hholds, hwants', hholds'⟩ := of_decide_eq_true hs
  exact ⟨xs, s, run, .holder hwants hholds (Or.inl rfl), .holder hwants' hholds' (Or.inl rfl), locks_not_deadlocked run⟩

end Dans.ThrottleThreads
