/-! Jobs, from `common/dstage/job.h` and `common/dstage/priority.h`. Identities and priorities are unsigned numbers. Most
    of the code only compares them and indexes with them; where it computes them (`Dispatch`, `CreateJobId`), the
    definitions there say how they wrap. The start time of a job is left out: it is read by log lines and statistics
    only. -/

namespace Dans

/-- `typedef unsigned JobId`. Duplicates of one job share it. -/
abbrev JobId := Nat

/-- `typedef unsigned Priority`; `0` is the highest priority. -/
abbrev Priority := Nat

/-- A `Job<T>`: one duplicate of a unit of work. -/
structure Job (T : Type) where
  jobId : JobId
  priority : Priority
  duplication : Nat
  jobData : T
  deriving DecidableEq, Repr

end Dans
