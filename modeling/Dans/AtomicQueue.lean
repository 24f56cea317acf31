import Dans.FifoSpec

/-! What a `MultiQueue` is for, seen by threads that call it at the same time: an object each of whose calls takes
    effect at one instant. Beside the lists of jobs the object has what `ReleaseQueues` leaves behind, which says when a
    `Dequeue` may return `nullptr`. `ReleaseOne` is none of its calls: a `Dequeue` tests its flag and clears it under no
    lock that keeps a second one out, so that one flag can send two callers away. -/

namespace Dans
open MultiQueue

variable {T : Type}

structure AtomicQueue (T : Type) where
  jobs : Jobs T
  released : Bool

namespace AtomicQueue

def new : AtomicQueue T := ⟨Fifo.empty, false⟩

/-- A `Dequeue` takes the head of its list. -/
def Takes (a : AtomicQueue T) (p : Priority) (job : Job T) (b : AtomicQueue T) : Prop :=
  ∃ jobs, a.jobs.Pops p job jobs ∧ b = { a with jobs := jobs }

/-- A `Dequeue` returns `nullptr`: its list is empty and the queues are released. -/
def GivesUp (a : AtomicQueue T) (p : Priority) (b : AtomicQueue T) : Prop := a.jobs p = [] ∧ a.released = true ∧ b = a

/-- What a call does at its instant, and what it returns. -/
def Does (maxPrio : Priority) (a : AtomicQueue T) : Op T → Ret T → AtomicQueue T → Prop
  | .enqueue job, .void, b => b = { a with jobs := a.jobs.push job.priority job }
  | .dequeue p, .job (some job), b => a.Takes p job b
  | .dequeue p, .job none, b => a.GivesUp p b
  | .purge id, .purged count, b => b = { a with jobs := a.jobs.drop (·.jobId == id) } ∧ count = a.jobs.countId maxPrio id
  | .releaseQueues, .void, b => b = { a with released := true }
  | _, _, _ => False

/-- The effect of a call whose priority is one of the queue's. -/
def Effect (maxPrio : Priority) (a : AtomicQueue T) (op : Op T) (ret : Ret T) (b : AtomicQueue T) : Prop :=
  op.InRange maxPrio ∧ a.Does maxPrio op ret b

end AtomicQueue
end Dans
