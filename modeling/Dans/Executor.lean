import Mathlib.Data.Fintype.Sum
import Dans.JobIds
import Dans.MultiQueueThreads

/-! The `Executor` of `common/dstage/executor.h` and `executor.cc`: a stage whose queue has one priority, whose dispatcher
    forwards, and whose worker threads run the closures that `Submit` puts into the queue. The steps of the threads
    inside the queue are those of `Dans/MultiQueueThreads.lean`. The destructor runs in one of the other threads; as the
    language asks, no `Submit` is in progress when it begins and none begins afterwards. -/

namespace Dans.Executor
open MachineInt

/-- `struct ExecutorCallback`. A closure is a value of a type `C`. -/
structure ExecutorCallback (C : Type) where
  closure : C
  id : Nat
  deriving DecidableEq, Repr

/-- `kMaxPrioDansExecutor`. -/
def kMaxPrioDansExecutor : Priority := 0

/-- A thread that submits and may destroy the executor, or a worker. -/
abbrev Thread (S W : Type) := S ⊕ W

/-- Where a thread is in `Submit`. -/
inductive Submit (C : Type) where
  | outside
  /-- In `CreateJobId`, after `Increment`. -/
  | incremented (task : ExecutorCallback C)
  /-- In `Enqueue`. -/
  | enqueueing
  deriving DecidableEq

/-- Where a worker is in `StartScheduling`. -/
inductive Loop (C : Type) where
  /-- In front of the test of `_destructing`. -/
  | test
  /-- In `Dequeue`. -/
  | inside
  /-- With a task that `Dequeue` has returned, in front of its closure. -/
  | taken (task : ExecutorCallback C)
  /-- In the closure. -/
  | running (task : ExecutorCallback C)
  | exited
  deriving DecidableEq

/-- Where the destructor is. -/
inductive Destructor (S : Type) where
  | none
  /-- `_destructing` is set. -/
  | flagged (t : S)
  /-- In `ReleaseQueues`. -/
  | releasing (t : S)
  /-- In `~Scheduler`, which joins the workers. -/
  | joining
  deriving DecidableEq

structure Sys (S W C : Type) where
  queue : Threads.Sys (Thread S W) (ExecutorCallback C)
  jidFactory : Counter
  submit : Thread S W → Submit C
  loop : W → Loop C
  destructor : Destructor S

inductive Label (S W C : Type) where
  /-- `Submit` is called; it increments the counter of ids. -/
  | submit (t : Thread S W) (task : ExecutorCallback C)
  /-- The next step of a thread in `Submit`. -/
  | proceed (t : Thread S W)
  /-- The next step of a worker in its loop. -/
  | loop (w : W)
  /-- The closure that a worker runs returns. -/
  | finish (w : W)
  | destruct (t : S)
  /-- The next step of the destructor. -/
  | release

variable {S W C : Type}

/-- Where the queue leaves a worker after a step of its `Dequeue`: with `nullptr` it goes back to the test. -/
def Loop.after : Threads.Pc (ExecutorCallback C) → Loop C
  | .idle (some (.job (some job))) => taken job.jobData
  | .idle _ => test
  | _ => inside

def Loop.isRunning : Loop C → Bool
  | running _ => true
  | test | inside | taken _ | exited => false

def Submit.isOutside : Submit C → Bool
  | outside => true
  | incremented _ | enqueueing => false

/-- Who can call `Submit`: a worker only from its closure. -/
def Sys.maySubmit (s : Sys S W C) (t : Thread S W) : Bool :=
  (s.submit t).isOutside && t.elim (fun _ => true) fun w => (s.loop w).isRunning

/-- The job that `Submit` dispatches: `/*priority=*/0`, `/*duplication*/ 0`. `Dispatch` finds the priority in range and
    forwards the job to `Enqueue`. -/
def Sys.job (s : Sys S W C) (task : ExecutorCallback C) : Job (ExecutorCallback C) :=
  ⟨asUnsigned s.jidFactory.count, 0, 0, task⟩

namespace Sys

variable [DecidableEq S] [DecidableEq W]

/-- Thread `t` of `Submit` goes to `c`. -/
def goto (s : Sys S W C) (t : Thread S W) (c : Submit C) : Thread S W → Submit C := Function.update s.submit t c

variable [Fintype S] [Fintype W]

def proceed (s : Sys S W C) (t : Thread S W) : Option (Sys S W C) :=
  match s.submit t with
  | .outside => none
  | .incremented task => (s.queue.next (.call t (.enqueue (s.job task)))).map fun q =>
      { s with queue := q, submit := s.goto t .enqueueing }
  | .enqueueing => (s.queue.next (.step t)).map fun q =>
      { s with queue := q, submit := s.goto t (if (q.pc t).isIdle then .outside else .enqueueing) }

/-- The next step of a worker. -/
def turn (s : Sys S W C) (w : W) : Option (Sys S W C) :=
  match s.loop w with
  | .test =>
    if s.destructor = .none then
      (s.queue.next (.call (.inr w) (.dequeue 0))).map fun q =>
        { s with queue := q, loop := Function.update s.loop w .inside }
    else some { s with loop := Function.update s.loop w .exited }
  | .inside => (s.queue.next (.step (.inr w))).map fun q =>
      { s with queue := q, loop := Function.update s.loop w (.after (q.pc (.inr w))) }
  | .taken task => some { s with loop := Function.update s.loop w (.running task) }
  | .running _ => none
  | .exited => none

/-- The next step of the destructor. -/
def release (s : Sys S W C) : Option (Sys S W C) :=
  match s.destructor with
  | .flagged t => (s.queue.next (.call (.inl t) .releaseQueues)).map fun q =>
      { s with queue := q, destructor := .releasing t }
  | .releasing t => (s.queue.next (.step (.inl t))).map fun q =>
      { s with queue := q, destructor := if (q.pc (.inl t)).isIdle then .joining else .releasing t }
  | .none => none
  | .joining => none

/-- What a label does. A stopped process does nothing. -/
def next (s : Sys S W C) (l : Label S W C) : Option (Sys S W C) :=
  if s.queue.fault.isSome then none
  else match l with
    | .submit t task =>
      if s.destructor = .none ∧ s.maySubmit t = true then
        s.jidFactory.increment.map fun r => { s with jidFactory := r.2, submit := s.goto t (.incremented task) }
      else none
    | .proceed t => s.proceed t
    | .loop w => s.turn w
    | .finish w =>
      if (s.loop w).isRunning && (s.submit (.inr w)).isOutside then
        some { s with loop := Function.update s.loop w .test }
      else none
    | .destruct t =>
      if s.destructor = .none ∧ ∀ u, (s.submit u).isOutside = true then some { s with destructor := .flagged t } else none
    | .release => s.release

end Sys

/-- A fresh executor; `_jid_factory(1)`. -/
def system (S W C : Type) [Fintype S] [Fintype W] [DecidableEq S] [DecidableEq W] :
    Lts (Sys S W C) (Label S W C) where
  init :=
    { queue := (Threads.system (Thread S W) (ExecutorCallback C) kMaxPrioDansExecutor).init
      jidFactory := .new (asInt 1), submit := fun _ => .outside, loop := fun _ => .test, destructor := .none }
  next := Sys.next

end Dans.Executor
