import Dans.MultiQueueThreads
import Dans.Throttler

/-! Threads that use one `Throttler` and its `MultiQueue`, as the steps that the locks of both delimit: the sections of
    `Dans/MultiQueueThreads.lean` inside the operations of `Dans/Throttler.lean`. A decision that calls `ReleaseOne`
    does so under `_state_lock`, and `SetThrottle` takes it as well. Only a queue of two priorities can have a
    throttler; the operations of the queue can be called on any. -/

namespace Dans.ThrottleThreads
open MultiQueue Throttle

variable {Tid T : Type}

/-- Where a thread is. -/
inductive Pc (T : Type) where
  /-- At one of the points of the throttler; at `queue` it is inside `MultiQueue::Dequeue`. -/
  | throttle (c : Throttle.Pc T)
  /-- Inside the `ReleaseOne` that a decision calls. -/
  | releasing (d : Decision)
  /-- In `SetThrottle`, in front of `_state_lock`. -/
  | setting (prio : Fin 2) (threshold : Int)
  | set (prio : Fin 2) (threshold : Int)
  /-- Inside an operation of the queue that was not called by the throttler. -/
  | direct

namespace Pc

def outside (ret : Option Nat) : Pc T := throttle (.outside ret)

/-- Holds `_state_lock`. -/
def locked : Pc T → Bool
  | throttle c => c.locked
  | releasing _ | set _ _ => true
  | setting _ _ | direct => false

/-- In front of `_state_lock`. -/
def entering : Pc T → Bool
  | throttle (.enter _) | setting _ _ => true
  | _ => false

/-- Inside an operation of the queue. -/
def inQueue : Pc T → Bool
  | throttle (.queue _) | releasing _ | direct => true
  | _ => false

/-- The job that a `Dequeue` has in its hand. -/
def hand : Pc T → Option Nat
  | throttle c => c.hand
  | releasing d => d.ret
  | _ => none

end Pc

/-- The queue with its threads, the throttler, the jobs that are live, and where each thread is. -/
structure Sys (Tid T : Type) where
  queue : Threads.Sys Tid T
  th : Throttler
  live : List (ThrottleJob T)
  nextSerial : Nat
  pc : Tid → Pc T
  abort : Option Abort

/-- What can happen: a thread outside calls an operation, or a thread inside takes its next step. -/
inductive Label (Tid T : Type) where
  | dequeue (t : Tid) (prio : Fin 2)
  | complete (t : Tid) (serial : Nat)
  | setThrottle (t : Tid) (prio : Fin 2) (threshold : Int)
  | queueOp (t : Tid) (op : Op T)
  | step (t : Tid)

namespace Sys

def fail (s : Sys Tid T) (a : Abort) : Sys Tid T := { s with abort := some a }

/-- `_state_lock` can be taken. -/
def StateFree (s : Sys Tid T) : Prop := ∀ u, (s.pc u).locked = false

instance [Fintype Tid] (s : Sys Tid T) : Decidable s.StateFree := inferInstanceAs (Decidable (∀ u, (s.pc u).locked = false))

/-- No `Dequeue` has the job in its hand. -/
def NotInHand (s : Sys Tid T) (serial : Nat) : Prop := ∀ u, (s.pc u).hand ≠ some serial

instance [Fintype Tid] (s : Sys Tid T) (serial : Nat) : Decidable (s.NotInHand serial) :=
  inferInstanceAs (Decidable (∀ u, (s.pc u).hand ≠ some serial))

/-- The `CHECK_EQ` of the throttler's constructor: there are two priorities. -/
def Throttled (s : Sys Tid T) : Prop := s.queue.q.maxPrio + 1 = 2

instance (s : Sys Tid T) : Decidable s.Throttled := inferInstanceAs (Decidable (s.queue.q.maxPrio + 1 = 2))

variable [DecidableEq Tid]

def goto (s : Sys Tid T) (t : Tid) (c : Pc T) : Sys Tid T := { s with pc := Function.update s.pc t c }

/-- `DecideToScheduleAfterScheduling(prio)` clears the waiting flag before it decides. -/
def lockState (s : Sys Tid T) (t : Tid) (d : Decision) : Sys Tid T :=
  match d with
  | .afterScheduling p _ => { s.goto t (.throttle (.count d)) with th := s.th.setWaiting p false }
  | .completing _ => s.goto t (.throttle (.count d))

/-- `ThrottleJob::ThrottleJob`. -/
def makeJob (s : Sys Tid T) (t : Tid) (p : Fin 2) (job : Job T) : Sys Tid T :=
  if h : job.priority < 2 then
    { s.goto t (.throttle (.enter (.afterScheduling p (some s.nextSerial)))) with
      th := s.th.addCount ⟨job.priority, h⟩ 1
      live := s.live ++ [.ofJob s.nextSerial job h]
      nextSerial := s.nextSerial + 1 }
  else s.fail .outOfRange

/-- The assignment and the `CHECK` of `SetThrottle`. -/
def setThrottle (s : Sys Tid T) (t : Tid) (p : Fin 2) (threshold : Int) : Sys Tid T :=
  let s := { s.goto t (.outside none) with th := s.th.setTarget p threshold }
  if Throttler.Accepts s.th.throttleTargets then s else s.fail .checkTargets

variable [Fintype Tid]

/-- Thread `t` calls an operation of the queue from where it then is. -/
def callQueue (s : Sys Tid T) (t : Tid) (op : Op T) (c : Pc T) : Option (Sys Tid T) :=
  (s.queue.next (.call t op)).map fun q => { s.goto t c with queue := q }

/-- Thread `t` takes its next step inside the queue. -/
def stepQueue (s : Sys Tid T) (t : Tid) : Option (Sys Tid T) :=
  (s.queue.next (.step t)).map fun q => { s with queue := q }

/-- "Adjust low priority": after scheduling, `ReleaseOne` sends a waiting secondary `Dequeue` away. -/
def adjustLow (s : Sys Tid T) (t : Tid) (d : Decision) (highPrioJobs : Int) (attempted : Bool) : Option (Sys Tid T) :=
  if s.th.throttleTargets kPrimaryPriority ≤ highPrioJobs then
    match d with
    | .afterScheduling _ _ =>
      if s.th.secondaryWaiting then s.callQueue t (.releaseOne 1) (.releasing d) else some (s.goto t (.outside d.ret))
    | .completing _ => some (s.goto t (.outside d.ret))
  else if s.th.grantsSecondary attempted then
    some { s.goto t (.outside d.ret) with th := s.th.grant kSecondaryPriority }
  else some (s.goto t (.outside d.ret))

/-- The next step of thread `t` inside an operation; `none` while it has to wait. -/
def step (s : Sys Tid T) (t : Tid) : Option (Sys Tid T) :=
  match s.pc t with
  | .throttle (.outside _) => none
  -- Dequeue
  | .throttle (.block p) =>
    if s.th.throttleBlocks p then
      ({ s with th := s.th.takeBlock p } : Sys Tid T).callQueue t (.dequeue p) (.throttle (.queue p))
    else none
  | .throttle (.queue p) =>
    match s.queue.pc t with
    | .idle (some (.job none)) => some (s.goto t (.throttle (.enter (.afterScheduling p none))))
    | .idle (some (.job (some job))) => some (s.goto t (.throttle (.wrap p job)))
    | .idle _ => none
    | _ => s.stepQueue t
  | .throttle (.wrap p job) => some (s.makeJob t p job)
  -- The decision functions
  | .throttle (.enter d) => if s.StateFree then some (s.lockState t d) else none
  | .throttle (.count d) => some (s.goto t (.throttle (.size d (s.th.scheduledCounts kPrimaryPriority))))
  | .throttle (.size d count) => some (s.goto t (.throttle (.primary d (count + s.queue.q.size 0))))
  | .throttle (.primary d high) =>
    if s.th.grantsPrimary then
      some { s.goto t (.throttle (.secondary d high true)) with th := s.th.grant kPrimaryPriority }
    else some (s.goto t (.throttle (.secondary d high false)))
  | .throttle (.secondary d high attempted) => s.adjustLow t d high attempted
  | .releasing d => if (s.queue.pc t).isIdle then some (s.goto t (.outside d.ret)) else s.stepQueue t
  -- SetThrottle
  | .setting p threshold => if s.StateFree then some (s.goto t (.set p threshold)) else none
  | .set p threshold => some (s.setThrottle t p threshold)
  -- Operations of the queue
  | .direct => if (s.queue.pc t).isIdle then some (s.goto t (.outside none)) else s.stepQueue t

/-- `~ThrottleJob` up to `_state_lock`, by a thread outside the throttler. -/
def complete (s : Sys Tid T) (t : Tid) (serial : Nat) : Option (Sys Tid T) :=
  match s.live.find? (·.serial == serial) with
  | some j =>
    if s.NotInHand serial then
      some { s.goto t (.throttle (.enter (.completing j.prio))) with
        th := s.th.addCount j.prio (-1)
        live := s.live.eraseP (·.serial == serial) }
    else none
  | none => none

/-- What a label does; a stopped process does nothing. -/
def next (s : Sys Tid T) (l : Label Tid T) : Option (Sys Tid T) :=
  if s.abort.isSome || s.queue.fault.isSome then none
  else match l with
    | .step t => s.step t
    | .dequeue t p =>
      match s.pc t with
      | .throttle (.outside _) => if s.Throttled then some (s.goto t (.throttle (.block p))) else none
      | _ => none
    | .complete t serial =>
      match s.pc t with
      | .throttle (.outside _) => s.complete t serial
      | _ => none
    | .setThrottle t p threshold =>
      match s.pc t with
      | .throttle (.outside _) => if s.Throttled then some (s.goto t (.setting p threshold)) else none
      | _ => none
    | .queueOp t op =>
      match s.pc t with
      | .throttle (.outside _) => s.callQueue t op .direct
      | _ => none

end Sys

/-- Threads using a fresh queue and, if it has two priorities, a fresh throttler over it. -/
def system (Tid T : Type) [Fintype Tid] [DecidableEq Tid] (maxPriority : Priority) (targets : Fin 2 → Int) :
    Lts (Sys Tid T) (Label Tid T) where
  init := {
    queue := (Threads.system Tid T maxPriority).init
    th := Throttler.new targets
    live := []
    nextSerial := 0
    pc := fun _ => .outside none
    abort := if maxPriority + 1 = 2 ∧ ¬Throttler.Accepts targets then some .checkTargets else none }
  next := Sys.next

end Dans.ThrottleThreads
