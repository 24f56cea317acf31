import Dans.Job
import Dans.Lib.MachineInt

/-! The base class `Scheduler` of `scheduler.hh`: its constructor, `LinkMultiQ`, and the loop of `Run` that starts the
    threads of each priority and sets their scheduling priorities. -/

namespace Dans

/-- A thread that `Run` has started: the argument of its `StartScheduling`, and what `SetPriority` was called with. -/
structure Worker where
  prio : Priority
  schedulingPrio : Option Int
  deriving DecidableEq, Repr

structure Scheduler where
  setThreadPriority : Bool
  running : Bool
  linked : Bool
  threadsPerPrio : List Nat
  workers : List (List Worker)
  deriving DecidableEq, Repr

namespace Scheduler

/-- The constructor, with `CHECK(!_threads_per_prio.empty())`. -/
def new (threadsPerPrio : List Nat) (setThreadPriority : Bool) : Option Scheduler :=
  if threadsPerPrio.isEmpty then none else some ⟨setThreadPriority, false, false, threadsPerPrio, []⟩

/-- `LinkMultiQ`, with `CHECK_NOTNULL(multi_q_p)`. -/
def linkMultiQ (s : Scheduler) (multiQ : Option Unit) : Option Scheduler :=
  if multiQ.isSome then some { s with linked := true } else none

/-- `90 - (p * 30)`, where `p` is `unsigned`. -/
def wrapped (p : Priority) : Nat := (90 + 2 ^ 32 - p * 30 % 2 ^ 32) % 2 ^ 32

/-- `int new_prio = 90 - (p * 30) < 1 ? 1 : 90 - (p * 30)`. -/
def newPrio (p : Priority) : Int := if wrapped p < 1 then 1 else MachineInt.asInt (wrapped p)

/-- The loop of `Run` over the numbers of threads, from priority `p` on. -/
def startThreads (setThreadPriority : Bool) (p : Priority) : List Nat → List (List Worker)
  | [] => []
  | numberThreadsAtThisPrio :: rest =>
    List.replicate numberThreadsAtThisPrio ⟨p, if setThreadPriority then some (newPrio p) else none⟩ ::
      startThreads setThreadPriority ((p + 1) % 2 ^ 32) rest

/-- `Run`, with `CHECK_NOTNULL(_multi_q_p)` and `CHECK(!_running)`. -/
def run (s : Scheduler) : Option Scheduler :=
  if s.linked && !s.running then
    some { s with running := true, workers := s.workers ++ startThreads s.setThreadPriority 0 s.threadsPerPrio }
  else none

end Scheduler
end Dans
