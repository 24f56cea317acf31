import Dans.Lib.Lts
import Dans.Lib.MachineInt
import Dans.Job

/-! The `JobIdFactory` of `common/dstage/job.h` over the `Counter` of `common/dstage/synchronization.cc`. Each
    operation of the counter runs under its own lock; `CreateJobId` is two of them, and threads interleave there. -/

namespace Dans
open MachineInt

/-- A `Counter`: its `_count`. -/
structure Counter where
  count : Int

namespace Counter

/-- The constructor. -/
def new (initialValue : Int) : Counter := ⟨initialValue⟩

/-- `Increment`, with the new value. There is none beyond the last `int`: the overflow is undefined. -/
def increment (c : Counter) : Option (Int × Counter) := (checked (c.count + 1)).map fun n => (n, ⟨n⟩)

end Counter

namespace JobIdFactory

variable {Tid : Type}

/-- The factory, the threads that have incremented `_last_id` in `CreateJobId` and not yet read it, and the ids that
    calls have returned, the last one first. -/
structure Sys (Tid : Type) where
  lastId : Counter
  incremented : Tid → Bool
  returned : List JobId

/-- The two steps of `CreateJobId`. -/
inductive Label (Tid : Type) where
  /-- `_last_id.Increment()`. -/
  | increment (t : Tid)
  /-- `return _last_id.Count()`. -/
  | count (t : Tid)

def Sys.next [DecidableEq Tid] (s : Sys Tid) : Label Tid → Option (Sys Tid)
  | .increment t =>
    if s.incremented t then none
    else s.lastId.increment.map fun r => { s with lastId := r.2, incremented := Function.update s.incremented t true }
  | .count t =>
    if s.incremented t then
      some { s with incremented := Function.update s.incremented t false,
                    returned := asUnsigned s.lastId.count :: s.returned }
    else none

/-- Threads calling `CreateJobId` on a fresh factory. -/
def system (Tid : Type) [DecidableEq Tid] (seed : Nat) : Lts (Sys Tid) (Label Tid) where
  init := { lastId := .new (asInt seed), incremented := fun _ => false, returned := [] }
  next := Sys.next

end JobIdFactory
end Dans
