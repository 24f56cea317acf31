import Mathlib.Logic.Function.Basic
import Dans.Job

/-! The `MultiQueue` of `common/dstage/multiqueue.h` and `multiqueue.hh`: the data it keeps, the
    sections its operations run under their locks, and the operations as one caller sees them when no
    other call is in progress. The sections are what the threads of `Dans/MultiQueueThreads.lean` interleave. -/

namespace Dans

/-- A node of a `std::list<JobId>`. An iterator to it is its `addr`. -/
structure Node where
  addr : Nat
  jobId : JobId
  deriving DecidableEq, Repr

/-- An element of a duplicate list of `_value_mapper`: a job and the iterator of its node. -/
structure Entry (T : Type) where
  job : Job T
  iter : Nat
  deriving DecidableEq, Repr

/-- The node that the iterator of an entry points to. -/
def Entry.node {T : Type} (e : Entry T) : Node := ⟨e.iter, e.job.jobId⟩

/-- What stops the process: a failed `CHECK`, or an access the language leaves undefined. -/
inductive Fault where
  /-- `CHECK_LE(prio, _max_prio)`. -/
  | checkPriority
  /-- `CHECK(search != _value_mapper.end())`. -/
  | checkSearch
  /-- `CHECK(found)`. -/
  | checkFound
  /-- `*begin()` and `pop_front()` on an empty list. -/
  | popEmpty
  /-- `erase` of an iterator that points to no node of the list. -/
  | badIterator
  /-- A vector indexed beyond its end. -/
  | outOfRange
  deriving DecidableEq, Repr

/-- The members of a `MultiQueue`. Vectors are functions of the priority; the locks that only exclude
    other threads (`_purge_shared_mutex`, `_pq_mutexes`, `_value_map_mutex`) are in `Dans/MultiQueueThreads.lean`. -/
structure MultiQueue (T : Type) where
  maxPrio : Priority
  released : Bool
  /-- `_not_empty_mutexes`, as gates: `true` when the mutex is unlocked. -/
  notEmpty : Priority → Bool
  priorityQs : Priority → List Node
  releaseOne : Priority → Bool
  valueMapper : JobId → Option (List (Entry T))
  /-- The identity that the next list node gets. -/
  nextAddr : Nat

namespace MultiQueue

variable {T : Type}

/-- The constructor. Its loop locks the gates of the priorities below `_max_prio`. -/
def new (maxPriority : Priority) : MultiQueue T where
  maxPrio := maxPriority
  released := false
  notEmpty i := !decide (i < maxPriority)
  priorityQs _ := []
  releaseOne _ := false
  valueMapper _ := none
  nextAddr := 0

/-- `_not_empty_mutexes[prio].unlock()`: the gate is open afterwards, also if it was open already. -/
def openGate (q : MultiQueue T) (prio : Priority) : MultiQueue T :=
  { q with notEmpty := Function.update q.notEmpty prio true }

/-- `_not_empty_mutexes[prio].lock()`, once the gate is open. -/
def closeGate (q : MultiQueue T) (prio : Priority) : MultiQueue T :=
  { q with notEmpty := Function.update q.notEmpty prio false }

/-- `_release_one[prio] = false`. -/
def clearReleaseOne (q : MultiQueue T) (prio : Priority) : MultiQueue T :=
  { q with releaseOne := Function.update q.releaseOne prio false }

/-! ### Enqueue -/

/-- `Enqueue` under `_pq_mutexes[prio]`: the node goes to the end of its list, and the gate is unlocked
    if the list was empty. -/
def insertNode (q : MultiQueue T) (job : Job T) : MultiQueue T :=
  let prio := job.priority
  let qs := q.priorityQs prio ++ [⟨q.nextAddr, job.jobId⟩]
  let q := { q with priorityQs := Function.update q.priorityQs prio qs, nextAddr := q.nextAddr + 1 }
  if qs.length = 1 then q.openGate prio else q

/-- `Enqueue` under `_value_map_mutex`: the entry goes to the end of the duplicate list of its id. -/
def insertEntry (q : MultiQueue T) (job : Job T) (iter : Nat) : MultiQueue T :=
  match q.valueMapper job.jobId with
  | none => { q with valueMapper := Function.update q.valueMapper job.jobId (some [⟨job, iter⟩]) }
  | some dups => { q with valueMapper := Function.update q.valueMapper job.jobId (some (dups ++ [⟨job, iter⟩])) }

/-! ### Dequeue -/

/-- `Dequeue` under `_pq_mutexes[prio]`: the front node leaves its list, and the gate is unlocked if
    the list still holds a node. -/
def popNode (q : MultiQueue T) (prio : Priority) : Except Fault (Node × MultiQueue T) :=
  match q.priorityQs prio with
  | [] => .error .popEmpty
  | n :: rest =>
    let q := { q with priorityQs := Function.update q.priorityQs prio rest }
    .ok (n, if rest.isEmpty then q else q.openGate prio)

/-- The search loop of `Dequeue`: the first entry of the priority, and the list without it. -/
def findEntry (prio : Priority) : List (Entry T) → Option (Entry T × List (Entry T))
  | [] => none
  | e :: dups =>
    if e.job.priority = prio then some (e, dups)
    else (findEntry prio dups).map fun (found, rest) => (found, e :: rest)

/-- `Dequeue` under `_value_map_mutex`: the first entry of the priority leaves the duplicate list of
    the id, and the id leaves the map with its last entry. -/
def takeEntry (q : MultiQueue T) (prio : Priority) (jobId : JobId) : Except Fault (Job T × MultiQueue T) :=
  match q.valueMapper jobId with
  | none => .error .checkSearch
  | some dups =>
    match findEntry prio dups with
    | none => .error .checkFound
    | some (e, rest) =>
      let left := if rest.isEmpty then none else some rest
      .ok (e.job, { q with valueMapper := Function.update q.valueMapper jobId left })

/-- How a turn of the `while (true)` loop of `Dequeue` ends. -/
inductive Turn (T : Type) where
  /-- The gate is closed: the caller waits in front of it. -/
  | waits
  /-- The list was empty: the caller has given up the purge lock and goes back to the gate. -/
  | again (q : MultiQueue T)
  | returns (q : MultiQueue T) (job : Option (Job T))
  | fault (f : Fault)

/-- One turn of the loop of `Dequeue`, and what follows the loop where the turn leaves it. -/
def dequeueTurn (q : MultiQueue T) (prio : Priority) : Turn T :=
  if q.notEmpty prio = false then .waits
  else
    let q := q.closeGate prio
    if q.releaseOne prio then .returns (q.clearReleaseOne prio) none
    else if (q.priorityQs prio).isEmpty && q.released then .returns (q.openGate prio) none
    else if (q.priorityQs prio).isEmpty then .again q
    else
      match q.popNode prio with
      | .error f => .fault f
      | .ok (n, q) =>
        match q.takeEntry prio n.jobId with
        | .error f => .fault f
        | .ok (job, q) => .returns q (some job)

/-! ### Purge, ReleaseOne, ReleaseQueues -/

/-- `_priority_qs[job_p->priority].erase(duplicate_list_iter->second)`. -/
def eraseNode (qs : Priority → List Node) (e : Entry T) : Except Fault (Priority → List Node) :=
  if (qs e.job.priority).any (·.addr == e.iter) then
    .ok (Function.update qs e.job.priority ((qs e.job.priority).eraseP (·.addr == e.iter)))
  else .error .badIterator

/-- The loop of `Purge` over a duplicate list, with its counter `purged`. -/
def purgeLoop : List (Entry T) → (Priority → List Node) → Nat → Except Fault ((Priority → List Node) × Nat)
  | [], qs, purged => .ok (qs, purged)
  | e :: dups, qs, purged =>
    match eraseNode qs e with
    | .error f => .error f
    | .ok qs => purgeLoop dups qs (purged + 1)

/-- `Purge`, under `_purge_shared_mutex` held exclusively. -/
def purge (q : MultiQueue T) (jobId : JobId) : Except Fault (Nat × MultiQueue T) :=
  match q.valueMapper jobId with
  | none => .ok (0, q)
  | some dups =>
    match purgeLoop dups q.priorityQs 0 with
    | .error f => .error f
    | .ok (qs, purged) =>
      .ok (purged, { q with priorityQs := qs, valueMapper := Function.update q.valueMapper jobId none })

/-- `ReleaseQueues`: from now on released, and the gates of the empty lists are unlocked. -/
def releaseQueues (q : MultiQueue T) : MultiQueue T :=
  { q with
    released := true
    notEmpty := fun p => if p ≤ q.maxPrio ∧ q.priorityQs p = [] then true else q.notEmpty p }

/-- `ReleaseOne`: on an empty list, sets the flag and unlocks the gate. -/
def releaseOneAt (q : MultiQueue T) (prio : Priority) : MultiQueue T :=
  if (q.priorityQs prio).isEmpty then
    { q with releaseOne := Function.update q.releaseOne prio true }.openGate prio
  else q

/-- `Size`. -/
def size (q : MultiQueue T) (prio : Priority) : Nat := (q.priorityQs prio).length

/-! ### Whole calls -/

/-- A call of an operation. -/
inductive Op (T : Type) where
  | enqueue (job : Job T)
  | dequeue (prio : Priority)
  | purge (jobId : JobId)
  | releaseOne (prio : Priority)
  | releaseQueues
  deriving DecidableEq, Repr

/-- What a completed call returns. -/
inductive Ret (T : Type) where
  | void
  | job (job : Option (Job T))
  | purged (count : Nat)
  deriving DecidableEq, Repr

/-- How a call ends when no other call is in progress. -/
inductive Outcome (T : Type) where
  | done (q : MultiQueue T) (ret : Ret T)
  /-- A `Dequeue` that waits at the gate, and the queue it leaves to other callers. -/
  | blocked (q : MultiQueue T)
  | fault (f : Fault)

/-- The job that a call hands out. -/
def Ret.handed : Ret T → Option (Job T)
  | job handed => handed
  | void | purged _ => none

/-- What a call leaves behind. A caller that has to wait has no job yet. -/
def Outcome.result : Outcome T → Except Fault (MultiQueue T × Option (Job T))
  | done q ret => .ok (q, ret.handed)
  | blocked q => .ok (q, none)
  | fault f => .error f

/-- `Enqueue` run alone. -/
def enqueue (q : MultiQueue T) (job : Job T) : Outcome T :=
  if job.priority ≤ q.maxPrio then .done ((q.insertNode job).insertEntry job q.nextAddr) .void
  else .fault .checkPriority

/-- `Dequeue` run alone. A turn that goes back to the gate finds it as it left it, closed. -/
def dequeue (q : MultiQueue T) (prio : Priority) : Outcome T :=
  if prio ≤ q.maxPrio then
    match q.dequeueTurn prio with
    | .waits => .blocked q
    | .again q => .blocked q
    | .returns q job => .done q (.job job)
    | .fault f => .fault f
  else .fault .checkPriority

/-- A call run alone. -/
def call (q : MultiQueue T) : Op T → Outcome T
  | .enqueue job => q.enqueue job
  | .dequeue prio => q.dequeue prio
  | .purge jobId =>
    match q.purge jobId with
    | .error f => .fault f
    | .ok (purged, q) => .done q (.purged purged)
  | .releaseOne prio => if prio ≤ q.maxPrio then .done (q.releaseOneAt prio) .void else .fault .outOfRange
  | .releaseQueues => .done q.releaseQueues .void

/-- Calls one after another. A `Dequeue` that blocks leaves the queue to the calls that follow; when it
    goes on, that is another `dequeue` of the list. -/
def run (q : MultiQueue T) : List (Op T) → Except Fault (MultiQueue T)
  | [] => .ok q
  | op :: ops =>
    match q.call op with
    | .done q _ => q.run ops
    | .blocked q => q.run ops
    | .fault f => .error f

/-- The priority that a call names is one of the queue's. -/
def Op.InRange (maxPrio : Priority) : Op T → Prop
  | .enqueue job => job.priority ≤ maxPrio
  | .dequeue prio => prio ≤ maxPrio
  | .releaseOne prio => prio ≤ maxPrio
  | .purge _ => True
  | .releaseQueues => True

end MultiQueue
end Dans
