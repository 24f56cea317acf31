import Dans.Lib.Lts
import Dans.Client
import Dans.Pipe
import Dans.Reactor

/-! The jobs of the proxy and the callbacks that carry them: `ReceivedConnection` of `dans_throttling_proxy.cc`,
    `StartScheduling` and the callbacks of `proxy_dstage.cc`, and what they use of `linux_communication_handler.cc`,
    `synchronization.cc` and `throttler.hh`. One thread runs the reactor; any number of threads schedule, and any number
    are workers of `_worker_exec`. Every access to what they share is a step. Jobs are numbered as they are accepted, and a
    socket of a job is named by its side: it is open as long as the job lives. What the kernel answers is part of the
    label. -/

namespace Dans.ProxyJobs
open MachineInt
open Client (ReadyFor)

/-! ### Callbacks -/

inductive Side where
  | client
  | server
  deriving DecidableEq

inductive Socket where
  | listen (priority : Priority)
  | pipe (job : Nat) (side : Side)
  deriving DecidableEq

/-- What a `DynamicallyAllocatedCallback` is bound to. -/
inductive Closure where
  /-- `ServeSocketReady`, with `ReceivedConnection`. -/
  | serve (priority : Priority)
  /-- The lambda of `ReceivedConnection`. -/
  | first (job : Nat)
  | cliClosed (job : Nat)
  | connect (job : Nat) (soc : Int)
  | monitor (job : Nat) (side : Side)
  deriving DecidableEq

/-- The socket that the callback is registered for. -/
def Closure.socket : Closure → Socket
  | serve priority => .listen priority
  | first job | cliClosed job => .pipe job .client
  | connect job _ => .pipe job .server
  | monitor job side => .pipe job side

/-- The job that the closure holds a `shared_ptr` of. -/
def Closure.holds : Closure → Option Nat
  | serve _ | first _ => none
  | cliClosed job | connect job _ | monitor job _ => some job

/-- Whether `EPOLLIN` and `EPOLLOUT` are among the events that the registration asks for. -/
def Closure.asks : Closure → Bool × Bool
  | serve _ | monitor _ _ => (true, false)
  | connect _ _ => (true, true)
  | first _ | cliClosed _ => (false, false)

/-- `MonitorSocketReady`: what the callback is told of an event, with the error that the socket has. -/
def Closure.ready (c : Closure) (inp out : Bool) (err : Int) : ReadyFor :=
  if err ≠ 0 then ⟨false, false, err⟩ else ⟨inp && c.asks.1, out && c.asks.2, err⟩

/-- A callback, with an identity that no other one ever has. -/
structure Callback where
  id : Nat
  closure : Closure
  deriving DecidableEq

/-- What is submitted to `_worker_exec`. -/
inductive Task where
  | connectCallback (job : Nat) (soc : Int) (ready : ReadyFor)
  | monitorCallback (job : Nat) (side : Side) (ready : ReadyFor)
  | cliClosedCallback (job : Nat) (ready : ReadyFor)
  deriving DecidableEq

def Task.job : Task → Nat
  | connectCallback job _ _ | monitorCallback job _ _ | cliClosedCallback job _ => job

/-! ### Jobs -/

/-- A `Connection`, with its flag `_shutdown`; `issued` records that `shutdown` was called on the socket. -/
structure Connection where
  soc : Int
  shutdown : Bool
  issued : Bool
  deriving DecidableEq

def Connection.new (soc : Int) : Connection := ⟨soc, false, false⟩

def Connection.setShutdown (c : Connection) : Connection := { c with shutdown := true }

/-- `Connection::Shutdown`. -/
def Connection.issue (c : Connection) : Connection := if c.shutdown then c else { c with shutdown := true, issued := true }

/-- A `ThrottleJob` and its `TcpPipe`. There is no `out` while it, or its connection, is null. The last three fields are
    for the record: both sockets have been given to `Monitor`, the number of bytes that `send` has accepted, and the
    destructor has run. -/
structure PipeJob where
  priority : Priority
  inp : Connection
  out : Option Connection
  firstCb : Option Nat
  secondCb : Option Nat
  totalCompleted : Nat
  established : Bool
  accepted : Nat
  destroyed : Bool
  deriving DecidableEq

namespace PipeJob

def new (priority : Priority) (soc : Int) (firstCb : Option Nat) : PipeJob :=
  { priority := priority, inp := .new soc, out := none, firstCb := firstCb, secondCb := none, totalCompleted := 0
    established := false, accepted := 0, destroyed := false }

def connection (r : PipeJob) : Side → Option Connection
  | .client => some r.inp
  | .server => r.out

def modify (r : PipeJob) (f : Connection → Connection) : Side → PipeJob
  | .client => { r with inp := f r.inp }
  | .server => { r with out := r.out.map f }

def soc (r : PipeJob) (side : Side) : Int := ((r.connection side).map (·.soc)).getD (-1)

end PipeJob

def Side.other : Side → Side
  | client => server
  | server => client

/-! ### Threads -/

/-- Where the reactor is: between two callbacks, in the `accept4` loop of one, or in front of the `delete this` of one. -/
inductive Loop where
  | between
  | accepting (cb : Callback) (priority : Priority)
  | running (cb : Callback)
  deriving DecidableEq

/-- Where a scheduling thread is in `StartScheduling`. -/
inductive Sched where
  | idle
  /-- In front of the `Monitor` for `CliClosedCallbackWrapper`. -/
  | scheduled (job : Nat)
  /-- `Monitor` has returned; in front of the assignment to `second_cb`. -/
  | monitored (job : Nat) (id : Nat)
  /-- In front of `Connect`. -/
  | connecting (job : Nat)
  /-- In front of the test of `first_cb`. -/
  | testing (job : Nat)
  | deleting (job : Nat)
  | clearing (job : Nat)
  deriving DecidableEq

def Sched.job : Sched → Option Nat
  | idle => none
  | scheduled job | monitored job _ | connecting job | testing job | deleting job | clearing job => some job

/-- The callback that calls `ShutdownOther`. -/
inductive Caller where
  | connect
  | monitor
  | cliClosed
  deriving DecidableEq

/-- Where a worker is. -/
inductive Work where
  | idle
  /-- At the beginning of `ConnectCallback`. -/
  | connect (job : Nat) (soc : Int) (ready : ReadyFor)
  /-- In front of the two calls of `Monitor`. -/
  | monitorIn (job : Nat)
  | monitorOut (job : Nat)
  /-- In front of the test of `second_cb`. -/
  | testing (job : Nat)
  | deleting (job : Nat)
  | clearing (job : Nat)
  /-- At the beginning of `MonitorCallback`. -/
  | monitor (job : Nat) (side : Side) (ready : ReadyFor)
  /-- In `Pipe`. -/
  | piping (job : Nat) (side : Side)
  /-- In `ReportThroughput`, before and after it reads `total_completed`. -/
  | report (job : Nat) (side : Side) (newUnitsCompleted : Nat)
  | adding (job : Nat) (side : Side) (newUnitsCompleted totalCompleted : Nat)
  /-- In front of the `Monitor` of `MonitorCallback`, and behind it. -/
  | rearm (job : Nat) (side : Side)
  | returning (job : Nat) (side : Side)
  /-- At the beginning of `CliClosedCallback`. -/
  | cliClosed (job : Nat) (ready : ReadyFor)
  /-- In `ShutdownOther`, in front of `SetShutdown` and of `Shutdown`. -/
  | shutOther (caller : Caller) (job : Nat) (side : Side)
  | shutting (caller : Caller) (job : Nat) (side : Side)
  deriving DecidableEq

def Work.job : Work → Option Nat
  | idle => none
  | connect job _ _ | monitorIn job | monitorOut job | testing job | deleting job | clearing job | monitor job _ _
  | piping job _ | report job _ _ | adding job _ _ _ | rearm job _ | returning job _ | cliClosed job _
  | shutOther _ job _ | shutting _ job _ => some job

def Task.start : Task → Work
  | connectCallback job soc ready => .connect job soc ready
  | monitorCallback job side ready => .monitor job side ready
  | cliClosedCallback job ready => .cliClosed job ready

/-- What a step of a thread does for its job: where the thread goes, the job as it leaves it, the callback it registers,
    the task it submits and the pointer it deletes. -/
structure Act (κ : Type) where
  next : κ
  job : PipeJob
  register : Option Closure := none
  submit : Option Task := none
  delete : Option Nat := none

/-- `StartScheduling`, from one job of the queue to the next; `fresh` is the pointer that `Monitor` returns. -/
def Sched.act (fresh : Nat) (r : PipeJob) : Sched → Option (Act Sched)
  | scheduled job => some { next := .monitored job fresh, job := r, register := some (.cliClosed job) }
  | monitored job id => some { next := .connecting job, job := { r with secondCb := some id } }
  | testing job => some { next := if r.firstCb.isSome then .deleting job else .idle, job := r }
  | deleting job => some { next := .clearing job, job := r, delete := r.firstCb }
  | clearing _ => some { next := .idle, job := { r with firstCb := none } }
  | idle | connecting _ => none

/-- `Connect`: it waits for the socket, or calls `done` at once with neither flag set, connected or not. -/
def Sched.connect (r : PipeJob) (soc : Int) (inProgress : Bool) : Sched → Option (Act Sched)
  | connecting job => some
      { next := .testing job, job := r
        register := if inProgress then some (.connect job soc) else none
        submit := if inProgress then none else some (.connectCallback job soc ⟨false, false, 0⟩) }
  | _ => none

/-- `ConnectCallback`, `MonitorCallback`, `CliClosedCallback` and `ShutdownOther`, step by step. -/
def Work.act (r : PipeJob) : Work → Option (Act Work)
  | connect job soc ready => some
      { next := if !ready.out || ready.err != 0 then .shutOther .connect job .server else .monitorIn job
        job := { r with out := some (.new soc) } }
  | monitorIn job => some { next := .monitorOut job, job := r, register := some (.monitor job .client) }
  | monitorOut job => some
      { next := .testing job, job := { r with established := true }, register := some (.monitor job .server) }
  | testing job => some { next := if r.secondCb.isSome then .deleting job else .idle, job := r }
  | deleting job => some { next := .clearing job, job := r, delete := r.secondCb }
  | clearing _ => some { next := .idle, job := { r with secondCb := none } }
  | monitor job side ready => some
      { next := if ready.err != 0 || !ready.inp then .shutOther .monitor job side else .piping job side, job := r }
  | report job side newUnitsCompleted => some { next := .adding job side newUnitsCompleted r.totalCompleted, job := r }
  | adding job side newUnitsCompleted totalCompleted => some
      { next := .rearm job side, job := { r with totalCompleted := (totalCompleted + newUnitsCompleted) % 2 ^ 32 } }
  | rearm job side => some { next := .returning job side, job := r, register := some (.monitor job side) }
  | returning _ _ => some { next := .idle, job := r }
  | cliClosed job ready => some
      { next := if ready.err != 0 || !ready.inp then .shutOther .cliClosed job .client else .idle, job := r }
  -- The socket at the other side may not be there yet.
  | shutOther caller job side =>
    if (r.connection side.other).isNone then some { next := .idle, job := r }
    else some { next := .shutting caller job side, job := r.modify .setShutdown side }
  | shutting _ _ side => some { next := .idle, job := r.modify .issue side.other }
  | idle | piping _ _ => none

/-- The branch of `MonitorCallback` on what `Pipe` returns. -/
def Work.piped (job : Nat) (side : Side) (soc bytesPiped : Int) : Work :=
  if bytesPiped < 0 ∧ bytesPiped ≠ -TcpPipe.PipeResults.tryLater.value then
    if bytesPiped = -soc then .shutOther .monitor job side else .idle
  else if bytesPiped = 0 then .shutOther .monitor job side
  else .report job side (asUnsigned bytesPiped)

/-- A call of `Pipe`, on these results of `read` and `send`. -/
def Work.pipe (r : PipeJob) (reads : List TcpPipe.ReadResult) (sends : List TcpPipe.SendResult) (m : TcpPipe.Memory) :
    Work → Option (Act Work)
  | piping job side => (TcpPipe.pipe reads sends m).map fun p =>
      { next := .piped job side (r.soc side) p.ret
        job := { r with accepted := r.accepted + (TcpPipe.accepted p.calls).length } }
  | _ => none

/-! ### The system -/

/-- The use of a callback that was deleted. -/
inductive Fault where
  | invoked (id : Nat)
  | deleted (id : Nat)
  deriving DecidableEq

/-- The sizes in a `Stats`, each with its job. -/
structure Stats where
  primarySizes : List (Nat × Int)
  secondarySizes : List (Nat × Int)

/-- The callbacks allocated and deleted so far, the armed registrations, the events that `epoll_wait` has returned and that
    are not handled yet, the purges submitted to `_exec`, the queue of the stage, the queue of `_worker_exec`, where each
    thread is, the jobs, the sizes that `AddStat` was given, and the `Stats` that `Runner` has passed on. -/
structure Sys (S W : Type) where
  heap : List Closure
  freed : Nat → Bool
  epoll : List Callback
  batch : List Callback
  loop : Loop
  purges : List Nat
  queue : List Nat
  tasks : List Task
  sched : S → Sched
  work : W → Work
  jobs : Nat → PipeJob
  jobCount : Nat
  primarySizes : List (Nat × Int)
  secondarySizes : List (Nat × Int)
  stats : List Stats
  fault : Option Fault

namespace Sys

variable {S W κ : Type}

def setJob (s : Sys S W) (job : Nat) (r : PipeJob) : Sys S W := { s with jobs := Function.update s.jobs job r }

/-- `MonitorFor`: the registration of a new callback replaces the one that the socket has. -/
def armed (s : Sys S W) : Option Closure → List Callback
  | none => s.epoll
  | some c => s.epoll.filter (fun cb => cb.closure.socket ≠ c.socket) ++ [⟨s.heap.length, c⟩]

def register (s : Sys S W) (c : Closure) : Sys S W := { s with heap := s.heap ++ [c], epoll := s.armed (some c) }

def submit (s : Sys S W) (task : Task) : Sys S W := { s with tasks := s.tasks ++ [task] }

/-- What a step of a thread leaves of what the threads share. -/
def perform (s : Sys S W) (job : Nat) (a : Act κ) : Sys S W :=
  { s with
    heap := s.heap ++ a.register.toList
    freed := a.delete.elim s.freed fun id => Function.update s.freed id true
    epoll := s.armed a.register
    tasks := s.tasks ++ a.submit.toList
    jobs := Function.update s.jobs job a.job }

/-- A step that deletes this pointer, if it is not null, leads to `s'` unless the callback was deleted before. -/
def deleting (s : Sys S W) (id : Option Nat) (s' : Sys S W) : Sys S W :=
  match id with
  | some id => if s.freed id then { s with fault := some (.deleted id) } else s'
  | none => s'

/-! ### The reactor -/

/-- `epoll_wait` returns an event of the socket, which is disarmed. -/
def fetch (s : Sys S W) (socket : Socket) : Option (Sys S W) :=
  (s.epoll.find? fun cb => cb.closure.socket = socket).map fun cb =>
    { s with epoll := s.epoll.erase cb, batch := s.batch ++ [cb] }

def wait (s : Sys S W) (sockets : List Socket) : Option (Sys S W) :=
  if s.loop = .between ∧ s.batch = [] ∧ sockets.length ≤ Reactor.kMaxEvents then sockets.foldlM fetch s else none

/-- `(*cb_p)(events)`, up to the `delete this`. -/
def invoke (s : Sys S W) (inp out : Bool) (err : Int) : Option (Sys S W) :=
  match s.loop, s.batch with
  | .between, cb :: rest =>
    if s.freed cb.id then some { s with fault := some (.invoked cb.id) }
    else
      let s := { s with batch := rest, loop := .running cb }
      let ready := cb.closure.ready inp out err
      match cb.closure with
      | .serve priority =>
        some (if ready.inp then { s.register (.serve priority) with loop := .accepting cb priority } else s)
      | .first job =>
        some { s.setJob job { s.jobs job with firstCb := none } with purges := s.purges ++ [job] }
      | .cliClosed job =>
        some ((s.setJob job { s.jobs job with secondCb := none }).submit (.cliClosedCallback job ready))
      | .connect job soc => some (s.submit (.connectCallback job soc ready))
      | .monitor job side => some (s.submit (.monitorCallback job side ready))
  | _, _ => none

/-- `accept4` returns a socket: `ReceivedConnection`. -/
def accept (s : Sys S W) (soc : Int) : Option (Sys S W) :=
  match s.loop with
  | .accepting _ priority =>
    let job := s.jobCount
    some { (s.setJob job (.new priority soc (some s.heap.length))).register (.first job) with
      queue := s.queue ++ [job], jobCount := job + 1 }
  | _ => none

/-- `accept4` finds no other connection. -/
def accepted (s : Sys S W) : Option (Sys S W) :=
  match s.loop with
  | .accepting cb _ => some { s with loop := .running cb }
  | _ => none

/-- `delete this`. -/
def finish (s : Sys S W) : Option (Sys S W) :=
  match s.loop with
  | .running cb =>
    some (s.deleting (some cb.id) { s with loop := .between, freed := Function.update s.freed cb.id true })
  | _ => none

/-! ### The life of a job -/

/-- The sockets of a job are closed, which takes them out of the epoll set. -/
def close (s : Sys S W) (job : Nat) : Sys S W :=
  { s.setJob job { s.jobs job with destroyed := true } with
    epoll := s.epoll.filter fun cb => cb.closure.socket ≠ .pipe job .client ∧ cb.closure.socket ≠ .pipe job .server }

/-- `Purge`: a job that is still in the queue is destroyed. -/
def purge (s : Sys S W) : Option (Sys S W) :=
  match s.purges with
  | job :: rest =>
    let s := { s with purges := rest }
    some (if job ∈ s.queue then { s.close job with queue := s.queue.erase job } else s)
  | [] => none

/-- `AddStat`. -/
def addStat (s : Sys S W) (job : Nat) (r : PipeJob) : Sys S W :=
  if r.priority = 0 then { s with primarySizes := s.primarySizes ++ [(job, asInt r.totalCompleted)] }
  else { s with secondarySizes := s.secondarySizes ++ [(job, asInt r.totalCompleted)] }

/-- `Runner` forgets the sizes that are there when it starts. -/
def clearSizes (s : Sys S W) : Sys S W := { s with primarySizes := [], secondarySizes := [] }

/-- A round of `Runner`. -/
def report (s : Sys S W) : Sys S W := { s.clearSizes with stats := s.stats ++ [⟨s.primarySizes, s.secondarySizes⟩] }

/-- A callback that was not deleted holds the job. -/
def heldByCallback (s : Sys S W) (job : Nat) : Prop :=
  ∃ id, id < s.heap.length ∧ s.freed id = false ∧ (s.heap[id]?.bind Closure.holds) = some job

/-- Somebody holds a `shared_ptr` of the job. -/
def Alive (s : Sys S W) (job : Nat) : Prop :=
  s.heldByCallback job ∨ (∃ task ∈ s.tasks, task.job = job) ∨ (∃ t, (s.sched t).job = some job) ∨
    ∃ w, (s.work w).job = some job

instance (s : Sys S W) (job : Nat) : Decidable (s.heldByCallback job) :=
  inferInstanceAs (Decidable (∃ id, id < s.heap.length ∧ s.freed id = false ∧ (s.heap[id]?.bind Closure.holds) = some job))

instance [Fintype S] [Fintype W] (s : Sys S W) (job : Nat) : Decidable (s.Alive job) :=
  inferInstanceAs (Decidable (s.heldByCallback job ∨ (∃ task ∈ s.tasks, task.job = job) ∨
    (∃ t, (s.sched t).job = some job) ∨ ∃ w, (s.work w).job = some job))

variable [Fintype S] [Fintype W]

/-- `~ThrottleJob`, when the last `shared_ptr` of the job is gone. -/
def destroy (s : Sys S W) (job : Nat) : Option (Sys S W) :=
  if job < s.jobCount ∧ job ∉ s.queue ∧ (s.jobs job).destroyed = false ∧ ¬s.Alive job then
    some ((s.addStat job (s.jobs job)).close job)
  else none

variable [DecidableEq S] [DecidableEq W]

/-! ### Steps of the other threads -/

def take (s : Sys S W) (t : S) (job : Nat) : Option (Sys S W) :=
  if s.sched t = .idle ∧ job ∈ s.queue then
    some { s with queue := s.queue.erase job, sched := Function.update s.sched t (.scheduled job) }
  else none

/-- A scheduling thread does its next step. -/
def scheduling (s : Sys S W) (t : S) (act : PipeJob → Sched → Option (Act Sched)) : Option (Sys S W) := do
  let job ← (s.sched t).job
  let a ← act (s.jobs job) (s.sched t)
  some (s.deleting a.delete { s.perform job a with sched := Function.update s.sched t a.next })

/-- A worker takes the next task. -/
def start (s : Sys S W) (w : W) : Option (Sys S W) :=
  match s.work w, s.tasks with
  | .idle, task :: rest => some { s with tasks := rest, work := Function.update s.work w task.start }
  | _, _ => none

/-- A worker does its next step. -/
def working (s : Sys S W) (w : W) (act : PipeJob → Work → Option (Act Work)) : Option (Sys S W) := do
  let job ← (s.work w).job
  let a ← act (s.jobs job) (s.work w)
  some (s.deleting a.delete { s.perform job a with work := Function.update s.work w a.next })

end Sys

inductive Label (S W : Type) where
  | wait (sockets : List Socket)
  | invoke (inp out : Bool) (err : Int)
  | accept (soc : Int)
  | accepted
  | finish
  | purge
  | destroy (job : Nat)
  | take (t : S) (job : Nat)
  | schedule (t : S)
  | connect (t : S) (soc : Int) (inProgress : Bool)
  | start (w : W)
  | work (w : W)
  | pipe (w : W) (reads : List TcpPipe.ReadResult) (sends : List TcpPipe.SendResult) (m : TcpPipe.Memory)
  | clearSizes
  | report

variable {S W : Type} [Fintype S] [Fintype W] [DecidableEq S] [DecidableEq W]

/-- What a label does; after the use of a deleted callback nothing is said. -/
def Sys.next (s : Sys S W) (l : Label S W) : Option (Sys S W) :=
  if s.fault.isSome then none
  else match l with
    | .wait sockets => s.wait sockets
    | .invoke inp out err => s.invoke inp out err
    | .accept soc => s.accept soc
    | .accepted => s.accepted
    | .finish => s.finish
    | .purge => s.purge
    | .destroy job => s.destroy job
    | .take t job => s.take t job
    | .schedule t => s.scheduling t (Sched.act s.heap.length)
    | .connect t soc inProgress => s.scheduling t fun r => Sched.connect r soc inProgress
    | .start w => s.start w
    | .work w => s.working w Work.act
    | .pipe w reads sends m => s.working w fun r => Work.pipe r reads sends m
    | .clearSizes => some s.clearSizes
    | .report => some s.report

/-- The proxy, when `Serve` has been called for both of its ports. -/
def system (S W : Type) [Fintype S] [Fintype W] [DecidableEq S] [DecidableEq W] : Lts (Sys S W) (Label S W) where
  init :=
    { heap := [.serve 0, .serve 1], freed := fun _ => false, epoll := [⟨0, .serve 0⟩, ⟨1, .serve 1⟩], batch := []
      loop := .between, purges := [], queue := [], tasks := [], sched := fun _ => .idle, work := fun _ => .idle
      jobs := fun _ => .new 0 0 none, jobCount := 0, primarySizes := [], secondarySizes := [], stats := [], fault := none }
  next := Sys.next

end Dans.ProxyJobs
