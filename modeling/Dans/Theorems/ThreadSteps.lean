import Dans.Lib.Exclusion
import Dans.MultiQueueThreads
import Dans.Theorems.Linked

/-! What a step of a thread can do, said once, and what the locks exclude. -/

namespace Dans.Threads
open MultiQueue

variable {Tid T : Type} {s s' : Sys Tid T} {l : Label Tid T}

/-! ### The steps -/

/-- The steps that leave the queue alone: taking a lock, or a test that goes one way or the other. -/
inductive Goes (s : Sys Tid T) : Pc T → Pc T → Prop where
  | enqPurge {job : Job T} : s.NoWriter → Goes s (.enqPurge job) (.enqQueue job)
  | enqQueue {job : Job T} : job.priority ≤ s.q.maxPrio → s.QueueFree job.priority → Goes s (.enqQueue job) (.enqInsert job)
  | enqMapLock {job : Job T} {iter : Nat} : s.MapFree → Goes s (.enqMapLock job iter) (.enqMap job iter)
  | deqFlag {p : Priority} : s.q.releaseOne p = false → Goes s (.deqFlag p) (.deqPurge p)
  | deqPurge {p : Priority} : s.NoWriter → Goes s (.deqPurge p) (.deqTest p)
  | deqAgain {p : Priority} : s.q.priorityQs p = [] → s.q.released = false → Goes s (.deqTest p) (.deqGate p)
  | deqTest {p : Priority} : s.q.priorityQs p ≠ [] → Goes s (.deqTest p) (.deqQueue p)
  | deqQueue {p : Priority} : s.QueueFree p → Goes s (.deqQueue p) (.deqPop p)
  | deqMapLock {p : Priority} {n : Node} : s.MapFree → Goes s (.deqMapLock p n) (.deqMap p n)
  | purgeLock {id : JobId} : s.NoPurgeLock → Goes s (.purgeLock id) (.purgeBody id)
  | oneLock {p : Priority} : s.NoPurgeLock → Goes s (.oneLock p) (.oneQueue p)
  | oneQueue {p : Priority} : p ≤ s.q.maxPrio → s.QueueFree p → Goes s (.oneQueue p) (.oneBody p)
  | allLock : s.NoPurgeLock → Goes s .allLock .allBody

/-- The points at which the process stops, and the fault. -/
inductive Faults (s : Sys Tid T) : Pc T → Fault → Prop where
  | enqQueue {job : Job T} : ¬job.priority ≤ s.q.maxPrio → Faults s (.enqQueue job) .checkPriority
  | deqPop {p : Priority} {f : Fault} : s.q.popNode p = .error f → Faults s (.deqPop p) f
  | deqMap {p : Priority} {n : Node} {f : Fault} : s.q.takeEntry p n.jobId = .error f → Faults s (.deqMap p n) f
  | purgeBody {id : JobId} {f : Fault} : s.q.purge id = .error f → Faults s (.purgeBody id) f
  | oneQueue {p : Priority} : ¬p ≤ s.q.maxPrio → Faults s (.oneQueue p) .outOfRange

/-- A thread goes from `c` to `c'` and holds afterwards only locks it held before, or that were free. -/
structure LockStep (s : Sys Tid T) (c c' : Pc T) : Prop where
  queue : ∀ p, c'.queueLock = some p → c.queueLock = some p ∨ s.QueueFree p
  map : c'.mapLock = true → c.mapLock = true ∨ s.MapFree
  shared : c'.shared = true → c.shared = true ∨ s.NoWriter
  exclusive : c'.exclusive = true → c.exclusive = true ∨ s.NoPurgeLock

theorem Goes.lockStep {c c' : Pc T} (h : Goes s c c') : LockStep s c c' := by
  cases h <;>
    constructor <;>
    simp_all [Pc.queueLock, Pc.mapLock, Pc.shared, Pc.exclusive]

theorem LockStep.idle {c : Pc T} {ret : Option (Ret T)} : LockStep s c (.idle ret) := by
  constructor <;> simp [Pc.queueLock, Pc.mapLock, Pc.shared, Pc.exclusive]

theorem LockStep.start {c : Pc T} {op : Op T} : LockStep s c (.start op) := by
  cases op <;> constructor <;> simp [Pc.start, Pc.queueLock, Pc.mapLock, Pc.shared, Pc.exclusive]

/-- Each mutex has at most one holder, and nobody shares the purge lock with an exclusive holder. -/
structure Locks (s : Sys Tid T) : Prop where
  queue : ∀ p, Exclusion.One (fun c : Pc T => c.queueLock = some p) s.pc
  map : Exclusion.One (fun c : Pc T => c.mapLock = true) s.pc
  writer : Exclusion.One (fun c : Pc T => c.exclusive = true) s.pc
  purge : Exclusion.Apart (fun c : Pc T => c.exclusive = true) (fun c => c.shared = true) s.pc

theorem not_exclusive_shared (c : Pc T) : ¬(c.exclusive = true ∧ c.shared = true) := by
  cases c <;> simp [Pc.exclusive, Pc.shared]

theorem Locks.shared_of_exclusive (h : Locks s) {t : Tid} (ht : (s.pc t).exclusive = true) (u : Tid) :
    (s.pc u).shared = false := by
  simpa using h.purge t u ht

variable [DecidableEq Tid]

/-- Everything a label can do. -/
inductive Effect (s : Sys Tid T) : Label Tid T → Sys Tid T → Prop where
  | call {t : Tid} {op : Op T} (idle : (s.pc t).isIdle = true) (range : ∀ p, op = .dequeue p → p ≤ s.q.maxPrio) :
      Effect s (.call t op) (s.goto t (.start op))
  | move {t : Tid} {c c' : Pc T} (pc : s.pc t = c) (goes : Goes s c c') : Effect s (.step t) (s.goto t c')
  | insert {t : Tid} {job : Job T} (pc : s.pc t = .enqInsert job) :
      Effect s (.step t) (s.become t (s.q.insertNode job) (.enqMapLock job s.q.nextAddr))
  | entry {t : Tid} {job : Job T} {iter : Nat} (pc : s.pc t = .enqMap job iter) :
      Effect s (.step t) (s.become t (s.q.insertEntry job iter) (.idle (some .void)))
  | gate {t : Tid} {p : Priority} (pc : s.pc t = .deqGate p) (opened : s.q.notEmpty p = true) :
      Effect s (.step t) (s.become t (s.q.closeGate p) (.deqFlag p))
  | flag {t : Tid} {p : Priority} (pc : s.pc t = .deqFlag p) (flagged : s.q.releaseOne p = true) :
      Effect s (.step t) (s.become t (s.q.clearReleaseOne p) (.idle (some (.job none))))
  | released {t : Tid} {p : Priority} (pc : s.pc t = .deqTest p) (empty : s.q.priorityQs p = [])
      (released : s.q.released = true) :
      Effect s (.step t) (s.become t (s.q.openGate p) (.idle (some (.job none))))
  | pop {t : Tid} {p : Priority} {n : Node} {q : MultiQueue T} (pc : s.pc t = .deqPop p)
      (popped : s.q.popNode p = .ok (n, q)) : Effect s (.step t) (s.become t q (.deqMapLock p n))
  | take {t : Tid} {p : Priority} {n : Node} {job : Job T} {q : MultiQueue T} (pc : s.pc t = .deqMap p n)
      (taken : s.q.takeEntry p n.jobId = .ok (job, q)) :
      Effect s (.step t) (s.become t q (.idle (some (.job (some job)))))
  | purge {t : Tid} {id : JobId} {count : Nat} {q : MultiQueue T} (pc : s.pc t = .purgeBody id)
      (purged : s.q.purge id = .ok (count, q)) : Effect s (.step t) (s.become t q (.idle (some (.purged count))))
  | one {t : Tid} {p : Priority} (pc : s.pc t = .oneBody p) :
      Effect s (.step t) (s.become t (s.q.releaseOneAt p) (.idle (some .void)))
  | all {t : Tid} (pc : s.pc t = .allBody) : Effect s (.step t) (s.become t s.q.releaseQueues (.idle (some .void)))
  | fail {t : Tid} {c : Pc T} {f : Fault} (pc : s.pc t = c) (faults : Faults s c f) : Effect s (.step t) (s.fail f)
  | callFail {t : Tid} {p : Priority} (range : ¬p ≤ s.q.maxPrio) :
      Effect s (.call t (.dequeue p)) (s.fail .checkPriority)

/-- A label stops the process, or moves one thread as the locks allow. -/
theorem Effect.lockStep (h : Effect s l s') :
    (∃ f, s' = s.fail f) ∨ ∃ t c', s'.pc = Function.update s.pc t c' ∧ LockStep s (s.pc t) c' := by
  cases h with
  | @call t op _ _ => exact Or.inr ⟨t, _, rfl, .start⟩
  | @move t c c' pc goes => exact Or.inr ⟨t, c', rfl, pc ▸ goes.lockStep⟩
  | @insert t job pc =>
    refine Or.inr ⟨t, _, rfl, ?_⟩
    rw [pc]
    constructor <;> simp [Pc.queueLock, Pc.mapLock, Pc.shared, Pc.exclusive]
  | @gate t p pc _ =>
    refine Or.inr ⟨t, _, rfl, ?_⟩
    constructor <;> simp [Pc.queueLock, Pc.mapLock, Pc.shared, Pc.exclusive]
  | @pop t p n q pc _ =>
    refine Or.inr ⟨t, _, rfl, ?_⟩
    rw [pc]
    constructor <;> simp [Pc.queueLock, Pc.mapLock, Pc.shared, Pc.exclusive]
  | @entry t _ _ _ => exact Or.inr ⟨t, _, rfl, .idle⟩
  | @flag t _ _ _ => exact Or.inr ⟨t, _, rfl, .idle⟩
  | @released t _ _ _ _ => exact Or.inr ⟨t, _, rfl, .idle⟩
  | @take t _ _ _ _ _ _ => exact Or.inr ⟨t, _, rfl, .idle⟩
  | @purge t _ _ _ _ _ => exact Or.inr ⟨t, _, rfl, .idle⟩
  | @one t _ _ => exact Or.inr ⟨t, _, rfl, .idle⟩
  | @all t _ => exact Or.inr ⟨t, _, rfl, .idle⟩
  | fail _ _ => exact Or.inl ⟨_, rfl⟩
  | callFail _ => exact Or.inl ⟨_, rfl⟩

variable [Fintype Tid]

theorem step_effect {t : Tid} (h : s.step t = some s') : Effect s (.step t) s' := by
  unfold Sys.step at h
  split at h
  case h_1 => cases h
  case h_2 job hc =>
    split at h <;> cases h
    exact .move hc (.enqPurge ‹_›)
  case h_3 job hc =>
    split at h
    · split at h <;> cases h
      exact .move hc (.enqQueue ‹_› ‹_›)
    · cases h
      exact .fail hc (.enqQueue ‹_›)
  case h_4 job hc =>
    cases h
    exact .insert hc
  case h_5 job iter hc =>
    split at h <;> cases h
    exact .move hc (.enqMapLock ‹_›)
  case h_6 job iter hc =>
    cases h
    exact .entry hc
  case h_7 p hc =>
    split at h <;> cases h
    exact .gate hc ‹_›
  case h_8 p hc =>
    split at h
    · cases h
      exact .flag hc ‹_›
    · cases h
      exact .move hc (.deqFlag (Bool.eq_false_of_not_eq_true ‹_›))
  case h_9 p hc =>
    split at h <;> cases h
    exact .move hc (.deqPurge ‹_›)
  case h_10 p hc =>
    split at h
    · next hand =>
      cases h
      simp only [Bool.and_eq_true, List.isEmpty_iff] at hand
      exact .released hc hand.1 hand.2
    · next hand =>
      split at h
      · next hempty =>
        cases h
        have hnil := List.isEmpty_iff.mp hempty
        refine .move hc (.deqAgain hnil ?_)
        simpa [hnil] using hand
      · next hempty =>
        cases h
        exact .move hc (.deqTest fun hnil => hempty (by simp [hnil]))
  case h_11 p hc =>
    split at h <;> cases h
    exact .move hc (.deqQueue ‹_›)
  case h_12 p hc =>
    split at h
    · cases h
      exact .fail hc (.deqPop ‹_›)
    · cases h
      exact .pop hc ‹_›
  case h_13 p n hc =>
    split at h <;> cases h
    exact .move hc (.deqMapLock ‹_›)
  case h_14 p n hc =>
    split at h
    · cases h
      exact .fail hc (.deqMap ‹_›)
    · cases h
      exact .take hc ‹_›
  case h_15 id hc =>
    split at h <;> cases h
    exact .move hc (.purgeLock ‹_›)
  case h_16 id hc =>
    split at h
    · cases h
      exact .fail hc (.purgeBody ‹_›)
    · cases h
      exact .purge hc ‹_›
  case h_17 p hc =>
    split at h <;> cases h
    exact .move hc (.oneLock ‹_›)
  case h_18 p hc =>
    split at h
    · split at h <;> cases h
      exact .move hc (.oneQueue ‹_› ‹_›)
    · cases h
      exact .fail hc (.oneQueue ‹_›)
  case h_19 p hc =>
    cases h
    exact .one hc
  case h_20 hc =>
    split at h <;> cases h
    exact .move hc (.allLock ‹_›)
  case h_21 hc =>
    cases h
    exact .all hc

theorem next_effect (h : s.next l = some s') : Effect s l s' := by
  cases l with
  | step t =>
    simp only [Sys.next] at h
    split at h
    · cases h
    · exact step_effect h
  | call t op =>
    simp only [Sys.next] at h
    split at h
    · cases h
    · next hidle =>
      have idle : (s.pc t).isIdle = true := by
        simp only [Bool.or_eq_true, Bool.not_eq_true', not_or, Bool.not_eq_false] at hidle
        exact hidle.2
      split at h
      · split at h <;> cases h
        · refine .call idle ?_
          rintro p' ⟨⟩
          assumption
        · exact .callFail ‹_›
      · next hop =>
        cases h
        refine .call idle ?_
        rintro p rfl
        exact absurd rfl (hop p)

theorem next_fault (h : s.next l = some s') : s.fault = none := by
  cases hf : s.fault with
  | none => rfl
  | some f => cases l <;> simp [Sys.next, hf] at h

/-! ### What the locks exclude -/

theorem Locks.next (h : Locks s) (hn : s.next l = some s') : Locks s' := by
  rcases (next_effect hn).lockStep with ⟨f, rfl⟩ | ⟨t, c', hpc, hstep⟩
  · exact ⟨h.queue, h.map, h.writer, h.purge⟩
  · constructor
    · intro p
      rw [hpc]
      exact (h.queue p).update (hstep.queue p)
    · rw [hpc]
      refine h.map.update fun hm => (hstep.map hm).imp_right fun hfree u => ?_
      simpa using hfree u
    · rw [hpc]
      refine h.writer.update fun he => (hstep.exclusive he).imp_right fun hfree u => ?_
      simpa using (hfree u).1
    · rw [hpc]
      refine h.purge.update (not_exclusive_shared c') (fun he => (hstep.exclusive he).imp_right fun hfree u => ?_)
        (fun hs => (hstep.shared hs).imp_right fun hfree u => ?_)
      · simpa using (hfree u).2
      · simpa using hfree u

theorem Locks.init {maxPriority : Priority} : Locks (system Tid T maxPriority).init := by
  constructor <;>
    simp [system, Exclusion.One, Exclusion.Apart, Pc.queueLock, Pc.mapLock, Pc.exclusive]

theorem locks_of_run {maxPriority : Priority} {xs : List (Sys Tid T × Label Tid T)}
    (run : (system Tid T maxPriority).Run xs s) : Locks s := by
  induction run with
  | init => exact .init
  | step _ hn ih => exact ih.next hn

end Dans.Threads
