import Mathlib.Data.Fintype.Basic
import Dans.Lib.Lts
import Dans.MultiQueue

/-! Any number of threads calling one `MultiQueue`, as the steps that the locks of `multiqueue.hh`
    delimit: taking a lock or a gate is a step, a section run under its locks is a step and gives up
    the locks that end with it, and the emptiness test of `Dequeue` is a step. A lock is held by the
    threads whose program point lies between the step that takes it and the step that gives it up. -/

namespace Dans.Threads
open MultiQueue

variable {Tid T : Type}

/-- Where a thread is. A point named after a lock is in front of it. -/
inductive Pc (T : Type) where
  /-- Outside the queue, with what the last call returned. -/
  | idle (ret : Option (Ret T))
  | enqPurge (job : Job T)
  | enqQueue (job : Job T)
  | enqInsert (job : Job T)
  | enqMapLock (job : Job T) (iter : Nat)
  | enqMap (job : Job T) (iter : Nat)
  | deqGate (prio : Priority)
  | deqFlag (prio : Priority)
  | deqPurge (prio : Priority)
  | deqTest (prio : Priority)
  | deqQueue (prio : Priority)
  | deqPop (prio : Priority)
  -- The code keeps the id of the popped node only; its address says which node that was.
  | deqMapLock (prio : Priority) (node : Node)
  | deqMap (prio : Priority) (node : Node)
  | purgeLock (jobId : JobId)
  | purgeBody (jobId : JobId)
  | oneLock (prio : Priority)
  | oneQueue (prio : Priority)
  | oneBody (prio : Priority)
  | allLock
  | allBody
  deriving DecidableEq

namespace Pc

/-- Holds `_purge_shared_mutex` shared. -/
def shared : Pc T → Bool
  | enqQueue _ | enqInsert _ | enqMapLock _ _ | enqMap _ _ => true
  | deqTest _ | deqQueue _ | deqPop _ | deqMapLock _ _ | deqMap _ _ => true
  | _ => false

/-- Holds `_purge_shared_mutex` exclusively. -/
def exclusive : Pc T → Bool
  | purgeBody _ | oneQueue _ | oneBody _ | allBody => true
  | _ => false

/-- The priority whose `_pq_mutexes` entry the thread holds. -/
def queueLock : Pc T → Option Priority
  | enqInsert job | enqMapLock job _ => some job.priority
  | deqPop p | deqMapLock p _ | oneBody p => some p
  | _ => none

/-- Holds `_value_map_mutex`. -/
def mapLock : Pc T → Bool
  | enqMap _ _ | deqMap _ _ => true
  | _ => false

/-- No call is in progress. -/
def isIdle : Pc T → Bool
  | idle _ => true
  | _ => false

/-- The first point of a call. -/
def start : Op T → Pc T
  | .enqueue job => enqPurge job
  | .dequeue p => deqGate p
  | .purge id => purgeLock id
  | .releaseOne p => oneLock p
  | .releaseQueues => allLock

end Pc

/-- The queue, where each thread is, and what stopped the process, if anything did. -/
structure Sys (Tid T : Type) where
  q : MultiQueue T
  pc : Tid → Pc T
  fault : Option Fault

namespace Sys

/-- Thread `t` goes to `c`. -/
def goto [DecidableEq Tid] (s : Sys Tid T) (t : Tid) (c : Pc T) : Sys Tid T := { s with pc := Function.update s.pc t c }

/-- Thread `t` leaves the queue as `q` and goes to `c`. -/
def become [DecidableEq Tid] (s : Sys Tid T) (t : Tid) (q : MultiQueue T) (c : Pc T) : Sys Tid T :=
  { s with q := q, pc := Function.update s.pc t c }

def fail (s : Sys Tid T) (f : Fault) : Sys Tid T := { s with fault := some f }

/-- `_purge_shared_mutex` can be taken shared. -/
def NoWriter (s : Sys Tid T) : Prop := ∀ u, (s.pc u).exclusive = false

/-- `_purge_shared_mutex` can be taken exclusively. -/
def NoPurgeLock (s : Sys Tid T) : Prop := ∀ u, (s.pc u).exclusive = false ∧ (s.pc u).shared = false

/-- `_pq_mutexes[p]` can be taken. -/
def QueueFree (s : Sys Tid T) (p : Priority) : Prop := ∀ u, (s.pc u).queueLock ≠ some p

/-- `_value_map_mutex` can be taken. -/
def MapFree (s : Sys Tid T) : Prop := ∀ u, (s.pc u).mapLock = false

/-- No call is in progress. -/
def Quiet (s : Sys Tid T) : Prop := ∀ u, (s.pc u).isIdle = true

section Decidable
variable [Fintype Tid] (s : Sys Tid T)

instance : Decidable s.NoWriter := inferInstanceAs (Decidable (∀ u, (s.pc u).exclusive = false))
instance : Decidable s.NoPurgeLock :=
  inferInstanceAs (Decidable (∀ u, (s.pc u).exclusive = false ∧ (s.pc u).shared = false))
instance (p : Priority) : Decidable (s.QueueFree p) := inferInstanceAs (Decidable (∀ u, (s.pc u).queueLock ≠ some p))
instance : Decidable s.MapFree := inferInstanceAs (Decidable (∀ u, (s.pc u).mapLock = false))
instance : Decidable s.Quiet := inferInstanceAs (Decidable (∀ u, (s.pc u).isIdle = true))

end Decidable

variable [Fintype Tid] [DecidableEq Tid]

/-- The next step of thread `t` inside a call; `none` while it has to wait. -/
def step (s : Sys Tid T) (t : Tid) : Option (Sys Tid T) :=
  match s.pc t with
  | .idle _ => none
  -- Enqueue
  | .enqPurge job => if s.NoWriter then some (s.goto t (.enqQueue job)) else none
  | .enqQueue job =>
    if job.priority ≤ s.q.maxPrio then
      if s.QueueFree job.priority then some (s.goto t (.enqInsert job)) else none
    else some (s.fail .checkPriority)
  | .enqInsert job => some (s.become t (s.q.insertNode job) (.enqMapLock job s.q.nextAddr))
  | .enqMapLock job iter => if s.MapFree then some (s.goto t (.enqMap job iter)) else none
  | .enqMap job iter => some (s.become t (s.q.insertEntry job iter) (.idle (some .void)))
  -- Dequeue
  | .deqGate p => if s.q.notEmpty p then some (s.become t (s.q.closeGate p) (.deqFlag p)) else none
  -- the code tests `_release_one[p]` and then clears it; a step does both
  | .deqFlag p =>
    if s.q.releaseOne p then some (s.become t (s.q.clearReleaseOne p) (.idle (some (.job none))))
    else some (s.goto t (.deqPurge p))
  | .deqPurge p => if s.NoWriter then some (s.goto t (.deqTest p)) else none
  | .deqTest p =>
    if (s.q.priorityQs p).isEmpty && s.q.released then some (s.become t (s.q.openGate p) (.idle (some (.job none))))
    else if (s.q.priorityQs p).isEmpty then some (s.goto t (.deqGate p))
    else some (s.goto t (.deqQueue p))
  | .deqQueue p => if s.QueueFree p then some (s.goto t (.deqPop p)) else none
  | .deqPop p =>
    match s.q.popNode p with
    | .error f => some (s.fail f)
    | .ok (n, q) => some (s.become t q (.deqMapLock p n))
  | .deqMapLock p n => if s.MapFree then some (s.goto t (.deqMap p n)) else none
  | .deqMap p n =>
    match s.q.takeEntry p n.jobId with
    | .error f => some (s.fail f)
    | .ok (job, q) => some (s.become t q (.idle (some (.job (some job)))))
  -- Purge
  | .purgeLock id => if s.NoPurgeLock then some (s.goto t (.purgeBody id)) else none
  | .purgeBody id =>
    match s.q.purge id with
    | .error f => some (s.fail f)
    | .ok (purged, q) => some (s.become t q (.idle (some (.purged purged))))
  -- ReleaseOne
  | .oneLock p => if s.NoPurgeLock then some (s.goto t (.oneQueue p)) else none
  | .oneQueue p =>
    if p ≤ s.q.maxPrio then if s.QueueFree p then some (s.goto t (.oneBody p)) else none
    else some (s.fail .outOfRange)
  | .oneBody p => some (s.become t (s.q.releaseOneAt p) (.idle (some .void)))
  -- ReleaseQueues
  | .allLock => if s.NoPurgeLock then some (s.goto t .allBody) else none
  | .allBody => some (s.become t s.q.releaseQueues (.idle (some .void)))

end Sys

/-- A thread outside the queue calls an operation, or a thread inside takes its next step. -/
inductive Label (Tid T : Type) where
  | call (t : Tid) (op : Op T)
  | step (t : Tid)

/-- What a label does. A stopped process does nothing; `Dequeue` checks its priority first. -/
def Sys.next [Fintype Tid] [DecidableEq Tid] (s : Sys Tid T) : Label Tid T → Option (Sys Tid T)
  | .step t => if s.fault.isSome then none else s.step t
  | .call t op =>
    if s.fault.isSome || !(s.pc t).isIdle then none
    else match op with
      | .dequeue p => if p ≤ s.q.maxPrio then some (s.goto t (.deqGate p)) else some (s.fail .checkPriority)
      | op => some (s.goto t (.start op))

/-- Threads calling a fresh queue. -/
def system (Tid T : Type) [Fintype Tid] [DecidableEq Tid] (maxPriority : Priority) : Lts (Sys Tid T) (Label Tid T) where
  init := { q := MultiQueue.new maxPriority, pc := fun _ => .idle none, fault := none }
  next := Sys.next

end Dans.Threads
