import Mathlib.Data.Fintype.Basic
import Dans.Lib.Lts
import Dans.MultiQueue

/-! `throttler.hh`: the counts of scheduled jobs, the permissions `_throttle_blocks`, the decision functions
    and `SetThrottle`, and any number of threads that use one `Throttler`. Priority 0 is the primary one and
    1 the secondary. Every read of a counter or of the queue is a step, so that counts change between the
    reads of one decision, which runs under `_state_lock`. An operation of the queue is one step here; how
    its own sections interleave is the subject of `Dans.MultiQueueThreads`. -/

namespace Dans

@[simp] abbrev kPrimaryPriority : Fin 2 := 0

@[simp] abbrev kSecondaryPriority : Fin 2 := 1

/-- `Throttler`. A block is `true` while its mutex is unlocked. -/
structure Throttler where
  throttleTargets : Fin 2 → Int
  throttleBlocks : Fin 2 → Bool
  scheduledCounts : Fin 2 → Int
  primaryWaiting : Bool
  secondaryWaiting : Bool

namespace Throttler

/-- The `CHECK` of the constructor and of `SetThrottle`: the targets are not both 0. -/
def Accepts (targets : Fin 2 → Int) : Prop := ¬(targets kPrimaryPriority = 0 ∧ targets kSecondaryPriority = 0)

instance (targets : Fin 2 → Int) : Decidable (Accepts targets) :=
  inferInstanceAs (Decidable ¬(targets kPrimaryPriority = 0 ∧ targets kSecondaryPriority = 0))

/-- The constructor: the block of a target of 0 is locked, for the others a permission is outstanding. -/
def new (targets : Fin 2 → Int) : Throttler where
  throttleTargets := targets
  throttleBlocks p := targets p != 0
  scheduledCounts _ := 0
  primaryWaiting := targets kPrimaryPriority != 0
  secondaryWaiting := targets kSecondaryPriority != 0

/-- The waiting flag of a priority. -/
def waiting (th : Throttler) (p : Fin 2) : Bool := if p = kPrimaryPriority then th.primaryWaiting else th.secondaryWaiting

def setWaiting (th : Throttler) (p : Fin 2) (waiting : Bool) : Throttler :=
  if p = kPrimaryPriority then { th with primaryWaiting := waiting } else { th with secondaryWaiting := waiting }

/-- Sets the waiting flag and unlocks the block. -/
def grant (th : Throttler) (p : Fin 2) : Throttler :=
  { th.setWaiting p true with throttleBlocks := Function.update th.throttleBlocks p true }

/-- `_throttle_blocks[p].lock()`, where it is unlocked. -/
def takeBlock (th : Throttler) (p : Fin 2) : Throttler :=
  { th with throttleBlocks := Function.update th.throttleBlocks p false }

/-- `IncrementJobCount`, and the decrement of `DecrementJobCount`. -/
def addCount (th : Throttler) (p : Fin 2) (n : Int) : Throttler :=
  { th with scheduledCounts := Function.update th.scheduledCounts p (th.scheduledCounts p + n) }

/-- "Adjust high priority": whether the decision grants a primary permission. -/
def grantsPrimary (th : Throttler) : Bool :=
  decide (th.scheduledCounts kPrimaryPriority < th.throttleTargets kPrimaryPriority) && !th.primaryWaiting

/-- The test of the counts and flags in "adjust low priority". -/
def grantsSecondary (th : Throttler) (attempted : Bool) : Bool :=
  decide (th.scheduledCounts kSecondaryPriority < th.throttleTargets kSecondaryPriority) && !th.secondaryWaiting &&
    !attempted

/-- The assignment of `SetThrottle`. -/
def setTarget (th : Throttler) (p : Fin 2) (threshold : Int) : Throttler :=
  { th with throttleTargets := Function.update th.throttleTargets p threshold }

end Throttler

/-- A live `ThrottleJob`, counted under the priority of its job. -/
structure ThrottleJob (T : Type) where
  serial : Nat
  job : Job T
  prio : Fin 2
  counted : job.priority = prio
  deriving DecidableEq

/-- The `ThrottleJob` of a job of one of the two priorities. -/
def ThrottleJob.ofJob {T : Type} (serial : Nat) (job : Job T) (h : job.priority < 2) : ThrottleJob T :=
  ⟨serial, job, ⟨job.priority, h⟩, rfl⟩

namespace Throttle

variable {Tid T : Type}

/-- Why a decision function runs: after a `Dequeue` that returns the job with serial `ret`, if any, or in
    the destructor of a job. -/
inductive Decision where
  | afterScheduling (prio : Fin 2) (ret : Option Nat)
  | completing (prio : Fin 2)
  deriving DecidableEq

/-- What the operation that decides returns to its caller. -/
def Decision.ret : Decision → Option Nat
  | afterScheduling _ ret => ret
  | completing _ => none

/-- Where a thread is. -/
inductive Pc (T : Type) where
  /-- Outside the throttler, with what the last call returned. -/
  | outside (ret : Option Nat)
  | block (prio : Fin 2)
  | queue (prio : Fin 2)
  | wrap (prio : Fin 2) (job : Job T)
  /-- In front of `_state_lock`. -/
  | enter (d : Decision)
  | count (d : Decision)
  | size (d : Decision) (count : Int)
  | primary (d : Decision) (highPrioJobs : Int)
  | secondary (d : Decision) (highPrioJobs : Int) (attempted : Bool)
  deriving DecidableEq

namespace Pc

/-- Holds `_state_lock`. -/
def locked : Pc T → Bool
  | count _ | size _ _ | primary _ _ | secondary _ _ _ => true
  | _ => false

/-- The decision that the thread is in or is about to enter. -/
def decision : Pc T → Option Decision
  | enter d | count d | size d _ | primary d _ | secondary d _ _ => some d
  | _ => none

/-- The job that a `Dequeue` has in its hand. -/
def hand (c : Pc T) : Option Nat := c.decision.bind Decision.ret

end Pc

/-- Why the process stops. -/
inductive Abort where
  | checkTargets
  | outOfRange
  | queue (fault : Fault)
  deriving DecidableEq

/-- The queue, the throttler, the jobs that are live, and where each thread is. -/
structure Sys (Tid T : Type) where
  q : MultiQueue T
  th : Throttler
  live : List (ThrottleJob T)
  nextSerial : Nat
  pc : Tid → Pc T
  abort : Option Abort

namespace Sys

def fail (s : Sys Tid T) (a : Abort) : Sys Tid T := { s with abort := some a }

/-- `_state_lock` can be taken. -/
def StateFree (s : Sys Tid T) : Prop := ∀ u, (s.pc u).locked = false

instance [Fintype Tid] (s : Sys Tid T) : Decidable s.StateFree := inferInstanceAs (Decidable (∀ u, (s.pc u).locked = false))

/-- No `Dequeue` has the job in its hand. -/
def NotInHand (s : Sys Tid T) (serial : Nat) : Prop := ∀ u, (s.pc u).hand ≠ some serial

instance [Fintype Tid] (s : Sys Tid T) (serial : Nat) : Decidable (s.NotInHand serial) :=
  inferInstanceAs (Decidable (∀ u, (s.pc u).hand ≠ some serial))

variable [DecidableEq Tid]

/-- Thread `t` goes to `c`. -/
def goto (s : Sys Tid T) (t : Tid) (c : Pc T) : Sys Tid T := { s with pc := Function.update s.pc t c }

/-- `DecideToScheduleAfterScheduling(prio)` clears the waiting flag before it decides. -/
def lockState (s : Sys Tid T) (t : Tid) (d : Decision) : Sys Tid T :=
  match d with
  | .afterScheduling p _ => { s.goto t (.count d) with th := s.th.setWaiting p false }
  | .completing _ => s.goto t (.count d)

/-- "Adjust low priority": after scheduling, `ReleaseOne` sends a waiting secondary `Dequeue` away. -/
def adjustLow (s : Sys Tid T) (d : Decision) (highPrioJobs : Int) (attempted : Bool) : Sys Tid T :=
  if s.th.throttleTargets kPrimaryPriority ≤ highPrioJobs then
    match d with
    | .afterScheduling _ _ => if s.th.secondaryWaiting then { s with q := s.q.releaseOneAt 1 } else s
    | .completing _ => s
  else if s.th.grantsSecondary attempted then { s with th := s.th.grant kSecondaryPriority }
  else s

/-- `ThrottleJob::ThrottleJob`. -/
def makeJob (s : Sys Tid T) (t : Tid) (p : Fin 2) (job : Job T) : Sys Tid T :=
  if h : job.priority < 2 then
    { s with
      th := s.th.addCount ⟨job.priority, h⟩ 1
      live := s.live ++ [.ofJob s.nextSerial job h]
      nextSerial := s.nextSerial + 1
      pc := Function.update s.pc t (.enter (.afterScheduling p (some s.nextSerial))) }
  else s.fail .outOfRange

variable [Fintype Tid]

/-- The next step of thread `t` inside an operation; `none` while it has to wait. -/
def step (s : Sys Tid T) (t : Tid) : Option (Sys Tid T) :=
  match s.pc t with
  | .outside _ => none
  | .block p => if s.th.throttleBlocks p then some { s.goto t (.queue p) with th := s.th.takeBlock p } else none
  | .queue p =>
    match s.q.dequeueTurn p with
    | .waits => none
    | .again q => some { s with q := q }
    | .returns q none => some { s.goto t (.enter (.afterScheduling p none)) with q := q }
    | .returns q (some job) => some { s.goto t (.wrap p job) with q := q }
    | .fault f => some (s.fail (.queue f))
  | .wrap p job => some (s.makeJob t p job)
  | .enter d => if s.StateFree then some (s.lockState t d) else none
  | .count d => some (s.goto t (.size d (s.th.scheduledCounts kPrimaryPriority)))
  | .size d count => some (s.goto t (.primary d (count + s.q.size 0)))
  | .primary d high =>
    if s.th.grantsPrimary then some { s.goto t (.secondary d high true) with th := s.th.grant kPrimaryPriority }
    else some (s.goto t (.secondary d high false))
  | .secondary d high attempted => some ((s.adjustLow d high attempted).goto t (.outside d.ret))

end Sys

/-- What can happen: a thread calls `Dequeue` or takes its next step, the destructor of a job runs, the
    targets are changed, or another operation of the queue is called. -/
inductive Label (Tid T : Type) where
  | dequeue (t : Tid) (prio : Fin 2)
  | step (t : Tid)
  | complete (t : Tid) (serial : Nat)
  | setThrottle (prio : Fin 2) (threshold : Int)
  | queueOp (op : MultiQueue.Op T)

namespace Sys
variable [Fintype Tid] [DecidableEq Tid]

/-- `~ThrottleJob` up to `_state_lock`, by a thread outside the throttler. -/
def complete (s : Sys Tid T) (t : Tid) (serial : Nat) : Option (Sys Tid T) :=
  match s.pc t, s.live.find? (·.serial == serial) with
  | .outside _, some j =>
    if s.NotInHand serial then
      some { s.goto t (.enter (.completing j.prio)) with
        th := s.th.addCount j.prio (-1)
        live := s.live.eraseP (·.serial == serial) }
    else none
  | _, _ => none

/-- `SetThrottle`, under `_state_lock`. -/
def setThrottle (s : Sys Tid T) (p : Fin 2) (threshold : Int) : Option (Sys Tid T) :=
  if s.StateFree then
    let s := { s with th := s.th.setTarget p threshold }
    some (if Throttler.Accepts s.th.throttleTargets then s else s.fail .checkTargets)
  else none

/-- An operation of the queue other than `Dequeue`, which only the throttler calls. -/
def queueOp (s : Sys Tid T) (op : MultiQueue.Op T) : Option (Sys Tid T) :=
  match op, s.q.call op with
  | .dequeue _, _ => none
  | _, .done q _ => some { s with q := q }
  | _, .blocked _ => none
  | _, .fault f => some (s.fail (.queue f))

/-- What a label does; a stopped process does nothing. -/
def next (s : Sys Tid T) (l : Label Tid T) : Option (Sys Tid T) :=
  if s.abort.isSome then none
  else match l with
    | .dequeue t p =>
      match s.pc t with
      | .outside _ => some (s.goto t (.block p))
      | _ => none
    | .step t => s.step t
    | .complete t serial => s.complete t serial
    | .setThrottle p threshold => s.setThrottle p threshold
    | .queueOp op => s.queueOp op

end Sys

/-- The state after the constructor of the throttler, over a fresh queue of two priorities. -/
def start (Tid T : Type) (targets : Fin 2 → Int) : Sys Tid T where
  q := MultiQueue.new 1
  th := Throttler.new targets
  live := []
  nextSerial := 0
  pc _ := .outside none
  abort := if Throttler.Accepts targets then none else some .checkTargets

/-- Threads using one throttler. -/
def system (Tid T : Type) [Fintype Tid] [DecidableEq Tid] (targets : Fin 2 → Int) : Lts (Sys Tid T) (Label Tid T) where
  init := start Tid T targets
  next := Sys.next

end Throttle
end Dans
