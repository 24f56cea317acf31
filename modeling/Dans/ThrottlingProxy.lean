import Mathlib.Data.Fintype.Option
import Dans.Proxy
import Dans.ProxyJobs

/-! The proxy of `dans_throttling_proxy.cc` as a whole. Its jobs are those of `Dans.ProxyJobs`; the queue between
    `ReceivedConnection` and the scheduling threads, and the throttler around it, are those of `Dans.Throttler`. A job is
    put into the queue when it is accepted, the scheduling thread of a priority gets it from `Throttler::Dequeue`, and the
    thread that gives up the last `shared_ptr` of it runs `~ThrottleJob`: the count and the decision first, then `AddStat`
    and the destructors of the pipe. What both parts do in one step they do together, everything else they do apart. -/

namespace Dans.ThrottlingProxy

/-- The scheduling thread of a priority, the thread of the reactor (`none`), or a worker. -/
abbrev Thread (W : Type) := Proxy.Thread (Option W)

/-- The jobs, the throttler over the queue of their numbers, and the job whose destructor a thread runs. -/
structure Sys (W : Type) where
  jobs : ProxyJobs.Sys (Fin 2) W
  th : Throttle.Sys (Thread W) Nat
  dying : Thread W → Option Nat

inductive Label (W : Type) where
  /-- A step of the jobs: of the reactor, a worker, a scheduling thread that has its job, or a purge. -/
  | jobs (l : ProxyJobs.Label (Fin 2) W)
  /-- A scheduling thread calls `Throttler::Dequeue`. -/
  | dequeue (prio : Fin 2)
  /-- The next step of a thread in the throttler. -/
  | step (t : Thread W)
  /-- `~ThrottleJob` begins, with `DecrementJobCount`. -/
  | complete (t : Thread W) (job : Nat)
  /-- `AddStat`, and the destructors of the members. -/
  | destroy (t : Thread W)
  | setThrottle (prio : Fin 2) (threshold : Int)

/-- The thread is not in a function of the throttler. -/
def outside : Throttle.Pc Nat → Bool
  | .outside _ => true
  | _ => false

/-- What `ReceivedConnection` dispatches. No two jobs have one id, so that the number of the job serves as its id. -/
def dispatched {W : Type} (jobs : ProxyJobs.Sys (Fin 2) W) (job : Nat) : Job Nat := ⟨job, (jobs.jobs job).priority, 0, job⟩

namespace Sys

variable {W : Type}

/-- The job has left the queue, and its last `shared_ptr` is gone. -/
def Released (s : Sys W) (job : Nat) : Prop :=
  job < s.jobs.jobCount ∧ job ∉ s.jobs.queue ∧ (s.jobs.jobs job).destroyed = false ∧ ¬s.jobs.Alive job ∧
    ∀ t, s.dying t ≠ some job

variable [Fintype W]

instance (s : Sys W) (job : Nat) : Decidable (s.Released job) :=
  inferInstanceAs (Decidable (job < s.jobs.jobCount ∧ job ∉ s.jobs.queue ∧ (s.jobs.jobs job).destroyed = false ∧
    ¬s.jobs.Alive job ∧ ∀ t, s.dying t ≠ some job))

variable [DecidableEq W]

/-- A step of the jobs, with what it does to the queue. -/
def own (s : Sys W) : ProxyJobs.Label (Fin 2) W → Option (Sys W)
  | .accept soc =>
    (s.jobs.next (.accept soc)).bind fun jobs =>
      (s.th.next (.queueOp (.enqueue (dispatched jobs s.jobs.jobCount)))).map fun th => { s with jobs := jobs, th := th }
  | .purge =>
    match s.jobs.purges with
    | [] => none
    | job :: _ =>
      (s.jobs.next .purge).bind fun jobs =>
        (s.th.next (.queueOp (.purge job))).map fun th => { s with jobs := jobs, th := th }
  -- these are steps of the throttler, below
  | .take _ _ | .destroy _ => none
  -- `Dequeue` returns before the thread goes on with its job
  | .schedule p =>
    if outside (s.th.pc (.inl p)) then (s.jobs.next (.schedule p)).map fun jobs => { s with jobs := jobs } else none
  | .connect p soc inProgress =>
    if outside (s.th.pc (.inl p)) then
      (s.jobs.next (.connect p soc inProgress)).map fun jobs => { s with jobs := jobs }
    else none
  | l => (s.jobs.next l).map fun jobs => { s with jobs := jobs }

/-- A step in the throttler; with the one that takes a job out of the queue, the scheduling thread has it. -/
def throttle (s : Sys W) (t : Thread W) : Option (Sys W) :=
  (s.th.next (.step t)).bind fun th =>
    match s.th.pc t, th.pc t with
    | .queue p, .wrap _ job => (s.jobs.next (.take p job.jobData)).map fun jobs => { s with jobs := jobs, th := th }
    | _, _ => some { s with th := th }

def complete (s : Sys W) (t : Thread W) (job : Nat) : Option (Sys W) :=
  if s.dying t = none ∧ s.Released job then
    (s.th.live.find? (·.job.jobData == job)).bind fun tj =>
      (s.th.next (.complete t tj.serial)).map fun th => { s with th := th, dying := Function.update s.dying t (some job) }
  else none

def destroy (s : Sys W) (t : Thread W) : Option (Sys W) :=
  match s.dying t with
  | none => none
  | some job =>
    if outside (s.th.pc t) then
      (s.jobs.next (.destroy job)).map fun jobs => { s with jobs := jobs, dying := Function.update s.dying t none }
    else none

/-- What a label does; a stopped process does nothing. -/
def next (s : Sys W) (l : Label W) : Option (Sys W) :=
  if s.th.abort.isSome then none
  else match l with
    | .jobs l => s.own l
    | .dequeue p =>
      if s.jobs.sched p = .idle ∧ s.dying (.inl p) = none then
        (s.th.next (.dequeue (.inl p) p)).map fun th => { s with th := th }
      else none
    | .step t => s.throttle t
    | .complete t job => s.complete t job
    | .destroy t => s.destroy t
    | .setThrottle p threshold => (s.th.next (.setThrottle p threshold)).map fun th => { s with th := th }

end Sys

/-- The proxy with these targets, when `Serve` has been called for both of its ports. -/
def system (W : Type) [Fintype W] [DecidableEq W] (targets : Fin 2 → Int) : Lts (Sys W) (Label W) where
  init := { jobs := (ProxyJobs.system (Fin 2) W).init, th := Throttle.start (Thread W) Nat targets, dying := fun _ => none }
  next := Sys.next

end Dans.ThrottlingProxy
