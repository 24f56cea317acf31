import Mathlib.Algebra.BigOperators.Group.Finset.Basic
import Dans.Lib.Fifo
import Dans.MultiQueue

/-! What a `MultiQueue` is for: a first-in first-out list of jobs for each priority, from which all jobs
    of an id can be purged. Whether a `Dequeue` hands out a job or returns `nullptr` is left open. -/

namespace Dans

variable {T : Type}

/-- The jobs of each priority, the oldest first. -/
abbrev Jobs (T : Type) := Fifo Priority (Job T)

/-- How many jobs of an id the lists of the priorities up to `maxPrio` hold. -/
def Jobs.countId (jobs : Jobs T) (maxPrio : Priority) (id : JobId) : Nat :=
  ∑ p ∈ Finset.range (maxPrio + 1), (jobs p).countP (·.jobId == id)

/-- What a completed call does to the lists, given what it returned. -/
def Jobs.Step (maxPrio : Priority) (jobs : Jobs T) : MultiQueue.Op T → MultiQueue.Ret T → Jobs T → Prop
  | .enqueue job, .void, jobs' => jobs' = jobs.push job.priority job
  | .dequeue p, .job (some job), jobs' => jobs.Pops p job jobs'
  | .dequeue _, .job none, jobs' => jobs' = jobs
  | .purge id, .purged count, jobs' => jobs' = jobs.drop (·.jobId == id) ∧ count = jobs.countId maxPrio id
  | .releaseOne _, .void, jobs' => jobs' = jobs
  | .releaseQueues, .void, jobs' => jobs' = jobs
  | _, _, _ => False

namespace MultiQueue

/-- The job whose node this is. -/
def jobAt (q : MultiQueue T) (n : Node) : Option (Job T) :=
  (((q.valueMapper n.jobId).getD []).find? (·.iter == n.addr)).map (·.job)

/-- The lists that a queue stands for: the jobs of its nodes, in the order of the nodes. -/
def jobs (q : MultiQueue T) : Jobs T := fun p => (q.priorityQs p).filterMap q.jobAt

end MultiQueue
end Dans
