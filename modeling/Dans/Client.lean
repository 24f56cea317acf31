import Dans.Lib.Lts
import Dans.FifoSpec
import Dans.JobTypes

/-! The client chain: the stages `Connect`, `Request` and `Response` of `client_connect_handler.cc`,
    `client_request_handler.cc` and `client_response_handler.cc`, run by any number of threads. A whole call of
    a queue is one step, as is each test of a `PurgeState` and each action that follows it; what the network
    answers is part of the label. Stages are neither built nor destroyed here, and the application does not
    purge. -/

namespace Dans

namespace Dispatcher

/-- The lowest priority that `Dispatch` duplicates to, in `unsigned` arithmetic. -/
def maxPrio (maxPriority priority requestedDuplication : Nat) : Nat :=
  if maxPriority < (priority + requestedDuplication) % 2 ^ 32 then maxPriority
  else (priority + requestedDuplication) % 2 ^ 32

/-- `max_prio - job_p->priority`. -/
def duplication (maxPrio priority : Nat) : Nat := (maxPrio + 2 ^ 32 - priority) % 2 ^ 32

end Dispatcher

namespace Client

variable {Tid D : Type}

/-- How the chain was built: the `max_priority` of each stage, and whether `RegisterOriginDStage` was called. -/
structure Config where
  maxPriority : Stage → Priority
  origin : Bool

/-- `ReadyFor`, as a callback gets it. -/
structure ReadyFor where
  inp : Bool
  out : Bool
  err : Int
  deriving DecidableEq, Repr

/-- The event that a callback checks for. -/
def ReadyFor.expected (ready : ReadyFor) : StageJob D → Bool
  | .connect _ => ready.out
  | .request _ => ready.inp
  | .response _ => ready.inp

/-- What a `read` into the object returns. -/
inductive ReadResult where
  | bytes (data : List UInt8)
  | wouldBlock
  | error
  | closed
  deriving DecidableEq, Repr

/-- Why the process stops. -/
inductive Abort where
  /-- `CHECK_LE(job_p->priority, _max_priority)`. -/
  | checkPriority
  /-- The two checks of the number of addresses. -/
  | checkAddresses
  /-- `i++` behind the last `int`. -/
  | indexOverflow
  /-- `CHECK(ready_for.out)`, `CHECK(ready_for.in)`. -/
  | checkReady
  | checkSent
  /-- The header was not read in one piece. -/
  | checkHeader
  /-- `CHECK_NE(response_protocol.size_bytes, 0)`. -/
  | checkSize
  /-- A vector of negative size. -/
  | lengthError
  /-- A `read` behind the end of the object. -/
  | outOfBounds
  /-- `CHECK_NOTNULL(_origin_dstage)`. -/
  | checkOrigin
  | queue (fault : Fault)
  deriving DecidableEq

/-- The loop of `ConnectDispatcher::DuplicateAndEnqueue`. -/
structure Dispatching (D : Type) where
  job : Job (ConnectData D)
  purgeState : Nat
  maxPrio : Priority
  duplication : Nat
  i : Nat
  prio : Priority
  deriving DecidableEq

/-- The duplicate that the turn of the loop makes, if there is an address for it. -/
def Dispatching.duplicate (d : Dispatching D) : Option (Job (ConnectDataInternal D)) :=
  (d.job.jobData.ipAddresses[d.i]?).map fun ip =>
    ⟨d.job.jobId, d.prio, d.duplication, ⟨ip, d.job.jobData.objectId, d.job.jobData.done, d.purgeState⟩⟩

/-- Where a thread is. -/
inductive Pc (D : Type) where
  /-- In front of `Dequeue`, of the next event, or in the application. -/
  | outside
  | dispatching (d : Dispatching D)
  /-- With a job from the queue, in front of the test of its `PurgeState`. -/
  | taken (j : StageJob D)
  /-- The job was not purged: in front of `Connect`, `send` or `read`. -/
  | acting (j : StageJob D)
  /-- In front of the `Monitor` of a request. -/
  | sent (job : Job (RequestData D))
  /-- In the loop of `read`s into the object. -/
  | reading (job : Job (ResponseData D))
  | finished (job : Job (ResponseData D)) (closed : Bool)
  /-- The object is complete: in front of `SetPurged`. -/
  | completed (job : Job (ResponseData D))
  /-- `SetPurged` has returned true: in front of the call of `done`. -/
  | delivering (job : Job (ResponseData D))
  /-- In front of the purge of the queue of a stage. -/
  | sweeping (stage : Stage) (jobId : JobId)
  /-- In front of the `Monitor` of a response. -/
  | monitoring (job : Job (ResponseData D))
  /-- In a callback, in front of the test of the `PurgeState`. -/
  | called (j : StageJob D) (soc : Int)
  /-- The old job was not purged: in front of the `Dispatch` of the new one. -/
  | passing (j : StageJob D)
  deriving DecidableEq

/-- The three queues, the callbacks that the reactor will call, the jobs dispatched so far (a `PurgeState` is
    the place of its job in that list), the calls of `done`, and where each thread is. -/
structure Sys (Tid D : Type) where
  connectQ : MultiQueue (ConnectDataInternal D)
  requestQ : MultiQueue (RequestData D)
  responseQ : MultiQueue (ResponseData D)
  registered : List (StageJob D)
  requests : List JobId
  purged : Nat → Bool
  delivered : List (Job (ResponseData D))
  pc : Tid → Pc D
  abort : Option Abort

namespace Sys

def fail (s : Sys Tid D) (a : Abort) : Sys Tid D := { s with abort := some a }

/-- The state after a call of a queue, or the fault that stops the process. -/
def orFail (s : Sys Tid D) : Except Fault (Sys Tid D) → Sys Tid D
  | .ok s' => s'
  | .error f => s.fail (.queue f)

/-! ### The queues -/

def enqueue (s : Sys Tid D) : StageJob D → Except Fault (Sys Tid D)
  | .connect job => (s.connectQ.call (.enqueue job)).result.map fun x => { s with connectQ := x.1 }
  | .request job => (s.requestQ.call (.enqueue job)).result.map fun x => { s with requestQ := x.1 }
  | .response job => (s.responseQ.call (.enqueue job)).result.map fun x => { s with responseQ := x.1 }

def dequeue (s : Sys Tid D) (prio : Priority) : Stage → Except Fault (Sys Tid D × Option (StageJob D))
  | .connect => (s.connectQ.call (.dequeue prio)).result.map fun x => ({ s with connectQ := x.1 }, x.2.map .connect)
  | .request => (s.requestQ.call (.dequeue prio)).result.map fun x => ({ s with requestQ := x.1 }, x.2.map .request)
  | .response => (s.responseQ.call (.dequeue prio)).result.map fun x => ({ s with responseQ := x.1 }, x.2.map .response)

/-- `_multi_q->Purge(job_id)` in `DStage::Purge`. -/
def purge (s : Sys Tid D) (jobId : JobId) : Stage → Except Fault (Sys Tid D)
  | .connect => (s.connectQ.call (.purge jobId)).result.map fun x => { s with connectQ := x.1 }
  | .request => (s.requestQ.call (.purge jobId)).result.map fun x => { s with requestQ := x.1 }
  | .response => (s.responseQ.call (.purge jobId)).result.map fun x => { s with responseQ := x.1 }

/-- The jobs of a priority in the queue of a stage. -/
def queued (s : Sys Tid D) : Fifo (Stage × Priority) (StageJob D)
  | (.connect, p) => (s.connectQ.jobs p).map .connect
  | (.request, p) => (s.requestQ.jobs p).map .request
  | (.response, p) => (s.responseQ.jobs p).map .response

variable [DecidableEq Tid]

/-- Thread `t` goes to `c`. -/
def goto (s : Sys Tid D) (t : Tid) (c : Pc D) : Sys Tid D := { s with pc := Function.update s.pc t c }

/-- `Connect` or `Monitor`: from now on the reactor holds the job. -/
def register (s : Sys Tid D) (t : Tid) (j : StageJob D) : Sys Tid D :=
  { s.goto t .outside with registered := s.registered ++ [j] }

/-! ### Steps -/

/-- `Dispatcher::Dispatch` of a new job, up to the loop of `DuplicateAndEnqueue`. -/
def dispatch (cfg : Config) (s : Sys Tid D) (t : Tid) (job : Job (ConnectData D)) (requestedDuplication : Nat) :
    Sys Tid D :=
  let maxPriority := cfg.maxPriority .connect
  if maxPriority < job.priority then s.fail .checkPriority
  else
    let maxPrio := Dispatcher.maxPrio maxPriority job.priority requestedDuplication
    let duplication := Dispatcher.duplication maxPrio job.priority
    let addresses := job.jobData.ipAddresses.length
    if addresses ≤ duplication ∨ addresses ≠ (maxPriority + 1) % 2 ^ 32 then s.fail .checkAddresses
    else
      { s.goto t (.dispatching ⟨job, s.requests.length, maxPrio, duplication, 0, job.priority⟩) with
        requests := s.requests ++ [job.jobId] }

/-- `i++` in the loop of `DuplicateAndEnqueue`. -/
def increment (s : Sys Tid D) (i : Nat) : Sys Tid D := if i + 1 < 2 ^ 31 then s else s.fail .indexOverflow

/-- A turn of the loop of `DuplicateAndEnqueue`. The duplicate is in the queue when `i++` follows. -/
def duplicate (s : Sys Tid D) (t : Tid) (d : Dispatching D) : Sys Tid D :=
  if d.prio ≤ d.maxPrio then
    match d.duplicate with
    | none => s.fail .checkAddresses
    | some job =>
      let enqueued := (s.goto t (.dispatching { d with i := d.i + 1, prio := d.prio + 1 })).enqueue (.connect job)
      s.orFail (enqueued.map (·.increment d.i))
  else s.goto t .outside

/-- `ForwardingDispatcher`: the job goes into the queue of its stage. -/
def pass (cfg : Config) (s : Sys Tid D) (t : Tid) (j : StageJob D) : Sys Tid D :=
  if cfg.maxPriority j.stage < j.priority then s.fail .checkPriority
  else s.orFail ((s.goto t .outside).enqueue j)

/-- The test of a callback: the job is passed on, its socket is dropped, or it is purged. -/
def passOn (s : Sys Tid D) (t : Tid) (j : StageJob D) (soc : Int) : Sys Tid D :=
  if s.purged j.purgeState = false ∧ 0 ≤ soc then s.goto t (.passing (j.forward soc)) else s.goto t .outside

/-- `DStage::Purge`: the queue of the stage, then the next stage; a `ResponseScheduler` has no next one. -/
def sweep (s : Sys Tid D) (t : Tid) (jobId : JobId) : Stage → Sys Tid D
  | .connect => s.orFail ((s.goto t (.sweeping .request jobId)).purge jobId .connect)
  | .request => s.orFail ((s.goto t (.sweeping .response jobId)).purge jobId .request)
  | .response => s.orFail ((s.goto t .outside).purge jobId .response)

/-- The next step of a thread that does not wait for an answer of the network. -/
def step (cfg : Config) (s : Sys Tid D) (t : Tid) : Option (Sys Tid D) :=
  match s.pc t with
  | .dispatching d => some (s.duplicate t d)
  | .taken j => some (s.goto t (if s.purged j.purgeState then .outside else .acting j))
  | .acting (.connect job) => some (s.register t (.connect job))
  | .acting (.response job) => if job.jobData.object.isSome then some (s.goto t (.reading job)) else none
  | .sent job => some (s.register t (.request job))
  | .finished job closed =>
    if job.jobData.complete then some (s.goto t (.completed job))
    else some (s.goto t (if closed then .outside else .monitoring job))
  | .completed job =>
    if s.purged job.jobData.purgeState then some (s.goto t .outside)
    else some { s.goto t (.delivering job) with purged := Function.update s.purged job.jobData.purgeState true }
  | .delivering job =>
    let s := { s.goto t (.sweeping .connect job.jobId) with delivered := s.delivered ++ [job] }
    some (if cfg.origin then s else s.fail .checkOrigin)
  | .sweeping stage jobId => some (s.sweep t jobId stage)
  | .monitoring job => some (s.register t (.response job))
  | .called j soc => some (s.passOn t j soc)
  | .passing j => some (s.pass cfg t j)
  | .outside | .acting (.request _) | .reading _ => none

/-- The `send` of a request. -/
def send (s : Sys Tid D) (t : Tid) (complete : Bool) : Option (Sys Tid D) :=
  match s.pc t with
  | .acting (.request job) => some (if complete then s.goto t (.sent job) else s.fail .checkSent)
  | _ => none

/-- The `read` of the header; `none` when it does not return `sizeof(Protocol)`. -/
def readHeader (s : Sys Tid D) (t : Tid) (header : Option Protocol) : Option (Sys Tid D) :=
  match s.pc t with
  | .acting (.response job) =>
    if job.jobData.object.isSome then none
    else match header with
      | none => some (s.fail .checkHeader)
      | some header =>
        if header.sizeBytes < 0 then some (s.fail .lengthError)
        else if header.sizeBytes = 0 then some (s.fail .checkSize)
        else some (s.goto t (.reading { job with jobData := job.jobData.begin header }))
  | _ => none

/-- A `read` into the object asks for `size() - index` bytes and returns at most as many. -/
def read (s : Sys Tid D) (t : Tid) (result : ReadResult) : Option (Sys Tid D) :=
  match s.pc t with
  | .reading job =>
    if job.jobData.size < job.jobData.index then some (s.fail .outOfBounds)
    else match result with
      | .bytes data =>
        if data ≠ [] ∧ data.length ≤ job.jobData.size - job.jobData.index then
          some (s.goto t (.reading { job with jobData := job.jobData.store data }))
        else none
      | .wouldBlock => some (s.goto t (.finished job false))
      | .error => some (s.goto t (.finished job true))
      | .closed => some (s.goto t (.finished job true))
  | _ => none

/-- The reactor calls a callback, which it does only once, and the callback looks at the event. -/
def fire (s : Sys Tid D) (t : Tid) (i : Nat) (soc : Int) (ready : ReadyFor) : Option (Sys Tid D) :=
  match s.pc t, s.registered[i]? with
  | .outside, some j =>
    let s := { s with registered := s.registered.eraseIdx i }
    if ready.err ≠ 0 then some s
    else if ready.expected j then some (s.goto t (.called j soc))
    else some (s.fail .checkReady)
  | _, _ => none

/-- `Dequeue` of a scheduling thread, with the job that it returns. -/
def take (s : Sys Tid D) (t : Tid) (stage : Stage) (prio : Priority) : Option (Sys Tid D) :=
  match s.pc t with
  | .outside =>
    match s.dequeue prio stage with
    | .error f => some (s.fail (.queue f))
    | .ok (s', none) => some s'
    | .ok (s', some j) => some (s'.goto t (.taken j))
  | _ => none

end Sys

inductive Label (Tid D : Type) where
  | dispatch (t : Tid) (job : Job (ConnectData D)) (requestedDuplication : Nat)
  | take (t : Tid) (stage : Stage) (prio : Priority)
  | fire (t : Tid) (i : Nat) (soc : Int) (ready : ReadyFor)
  | step (t : Tid)
  | send (t : Tid) (complete : Bool)
  | readHeader (t : Tid) (header : Option Protocol)
  | read (t : Tid) (result : ReadResult)

variable [DecidableEq Tid]

/-- What a label does; a stopped process does nothing. -/
def Sys.next (cfg : Config) (s : Sys Tid D) (l : Label Tid D) : Option (Sys Tid D) :=
  if s.abort.isSome then none
  else match l with
    | .dispatch t job requestedDuplication =>
      match s.pc t with
      | .outside => some (s.dispatch cfg t job requestedDuplication)
      | _ => none
    | .take t stage prio => s.take t stage prio
    | .fire t i soc ready => s.fire t i soc ready
    | .step t => s.step cfg t
    | .send t complete => s.send t complete
    | .readHeader t header => s.readHeader t header
    | .read t result => s.read t result

/-- The chain with its threads, from its construction on. -/
def system (Tid D : Type) [DecidableEq Tid] (cfg : Config) : Lts (Sys Tid D) (Label Tid D) where
  init :=
    { connectQ := .new (cfg.maxPriority .connect), requestQ := .new (cfg.maxPriority .request)
      responseQ := .new (cfg.maxPriority .response), registered := [], requests := [], purged := fun _ => false
      delivered := [], pc := fun _ => .outside, abort := none }
  next := Sys.next cfg

end Client
end Dans
