import Mathlib.Data.Finset.Basic
import Dans.Job
import Dans.Lib.Lts
import Dans.Lib.MachineInt

/-! The statistics of `Throttler`, down to its locks: `AddStat`, called by any number of threads whose `ThrottleJob`s are
    destroyed, and the `Runner` that `RunEveryT` starts. Every lock taken or released, every `push_back`, every vector
    copied or cleared is a step. -/

namespace Dans.ThrottlerStats
open MachineInt

/-- The two priorities of the statistics. -/
inductive Side where
  | primary
  | secondary
  deriving DecidableEq, Repr

/-- The two vectors of each. -/
inductive Field where
  | latencies
  | sizes
  deriving DecidableEq, Repr

/-- `_primary_latencies`, `_primary_sizes`, `_secondary_latencies`, `_secondary_sizes`. -/
abbrev Vectors := Side → Field → List Int

def Vectors.set (vs : Vectors) (side : Side) (field : Field) (xs : List Int) : Vectors :=
  fun side' field' => if side' = side ∧ field' = field then xs else vs side' field'

/-- The arguments of `AddStat`. -/
structure Call where
  prio : Priority
  totalCompleted : Nat
  lat : Int
  deriving DecidableEq, Repr

def Call.side (c : Call) : Side := if c.prio = 0 then .primary else .secondary

/-- What `AddStat` appends: the sizes are `int`s. -/
def Call.value (c : Call) : Field → Int
  | .latencies => c.lat
  | .sizes => asInt c.totalCompleted

/-- Where a thread is in `AddStat`. -/
inductive Pc where
  | outside
  /-- In front of the shared lock of `_updater_lock`. -/
  | entering (c : Call)
  /-- In front of the mutex of its priority. -/
  | shared (c : Call)
  /-- In front of the two calls of `push_back`. -/
  | locked (c : Call)
  | pushed (c : Call)
  /-- In front of the release of the mutex, and of the shared lock. -/
  | recorded (c : Call)
  | leaving
  deriving DecidableEq, Repr

/-- Where `Runner` is. -/
inductive Runner where
  /-- In front of its first lock. -/
  | starting
  /-- In front of `clear` of the vectors that are left; in the first section, or in that of a round. -/
  | clearing (first : Bool) (left : List (Side × Field))
  /-- In front of the test of `_joining`. -/
  | testing
  | sleeping
  /-- In front of the lock of a round. -/
  | waiting
  /-- In the initialiser of `stats`, in front of the copies that are left. -/
  | copying (left : List (Side × Field))
  /-- In front of the call of `cb`. -/
  | calling
  | returned
  deriving DecidableEq, Repr

/-- The vectors in the order of the `clear`s. -/
def clears : List (Side × Field) :=
  [(.primary, .latencies), (.secondary, .latencies), (.primary, .sizes), (.secondary, .sizes)]

/-- The vectors in the order of the members of `Stats`. -/
def copies : List (Side × Field) :=
  [(.primary, .latencies), (.primary, .sizes), (.secondary, .latencies), (.secondary, .sizes)]

/-- The vectors, the holders of the locks, where everybody is, the local `stats` of `Runner`, and the `Stats` that it has
    passed to `cb`. -/
structure Sys (Tid : Type) where
  vectors : Vectors
  sharing : Finset Tid
  exclusive : Bool
  mutex : Side → Option Tid
  pc : Tid → Pc
  joining : Bool
  runner : Runner
  stats : Vectors
  handed : List Vectors

inductive Label (Tid : Type) where
  /-- A thread calls `AddStat`. -/
  | addStat (t : Tid) (c : Call)
  /-- A thread in `AddStat` does its next step. -/
  | step (t : Tid)
  | runner
  /-- `StopRunningEveryT` sets `_joining`. -/
  | stop

variable {Tid : Type} [DecidableEq Tid]

namespace Sys

def goto (s : Sys Tid) (t : Tid) (c : Pc) : Sys Tid := { s with pc := Function.update s.pc t c }

def append (s : Sys Tid) (c : Call) (field : Field) : Vectors :=
  s.vectors.set c.side field (s.vectors c.side field ++ [c.value field])

/-- The next step of a thread in `AddStat`. -/
def step (s : Sys Tid) (t : Tid) : Option (Sys Tid) :=
  match s.pc t with
  | .outside => none
  | .entering c => if s.exclusive then none else some { s.goto t (.shared c) with sharing := insert t s.sharing }
  | .shared c =>
    if s.mutex c.side = none then
      some { s.goto t (.locked c) with mutex := Function.update s.mutex c.side (some t) }
    else none
  | .locked c => some { s.goto t (.pushed c) with vectors := s.append c .latencies }
  | .pushed c => some { s.goto t (.recorded c) with vectors := s.append c .sizes }
  | .recorded c => some { s.goto t .leaving with mutex := Function.update s.mutex c.side none }
  | .leaving => some { s.goto t .outside with sharing := s.sharing.erase t }

/-- `_updater_lock` is taken by `Runner`, which goes to `r`. -/
def lock (s : Sys Tid) (r : Runner) : Option (Sys Tid) :=
  if s.exclusive = false ∧ s.sharing = ∅ then some { s with exclusive := true, runner := r } else none

/-- The next step of `Runner`. -/
def run (s : Sys Tid) : Option (Sys Tid) :=
  match s.runner with
  | .starting => s.lock (.clearing true clears)
  | .clearing first ((side, field) :: left) =>
    some { s with vectors := s.vectors.set side field [], runner := .clearing first left }
  | .clearing first [] => some { s with exclusive := false, runner := if first then .testing else .calling }
  | .testing => some { s with runner := if s.joining then .returned else .sleeping }
  | .sleeping => some { s with runner := .waiting }
  | .waiting => s.lock (.copying copies)
  | .copying ((side, field) :: left) =>
    some { s with stats := s.stats.set side field (s.vectors side field), runner := .copying left }
  | .copying [] => some { s with runner := .clearing false clears }
  -- the vectors are moved out of `stats`
  | .calling => some { s with handed := s.handed ++ [s.stats], stats := fun _ _ => [], runner := .testing }
  | .returned => none

def next (s : Sys Tid) : Label Tid → Option (Sys Tid)
  | .addStat t c => if s.pc t = .outside then some (s.goto t (.entering c)) else none
  | .step t => s.step t
  | .runner => s.run
  | .stop => some { s with joining := true }

end Sys

/-- The throttler with its threads, when `RunEveryT` is about to start `Runner`. -/
def system (Tid : Type) [DecidableEq Tid] : Lts (Sys Tid) (Label Tid) where
  init :=
    { vectors := fun _ _ => [], sharing := ∅, exclusive := false, mutex := fun _ => none, pc := fun _ => .outside
      joining := false, runner := .starting, stats := fun _ _ => [], handed := [] }
  next := Sys.next

end Dans.ThrottlerStats
