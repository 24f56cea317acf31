import Dans.Client

/-! The client chain as the journey of duplicates: first-in first-out lists instead of queues, and steps in
    which one thread takes, keeps, hands on or drops the duplicate that it holds. -/

namespace Dans.Client

variable {Tid D : Type}

/-- The job that a thread holds. -/
def Pc.job : Pc D → Option (StageJob D)
  | taken j | acting j | called j _ | passing j => some j
  | sent job => some (.request job)
  | reading job | finished job _ | completed job | delivering job | monitoring job => some (.response job)
  | outside | dispatching _ | sweeping _ _ => none

/-- The lists of the stages' queues. -/
def Config.lists (cfg : Config) : Finset (Stage × Priority) :=
  Finset.univ.biUnion fun stage => (Finset.range (cfg.maxPriority stage + 1)).image fun p => (stage, p)

theorem Config.mem_lists {cfg : Config} {stage : Stage} {p : Priority} :
    (stage, p) ∈ cfg.lists ↔ p ≤ cfg.maxPriority stage := by
  rw [← Nat.lt_succ_iff]
  simp [lists]

/-- What the chain is about: where the jobs are, whose `PurgeState` is set, and what was delivered. -/
structure Chain (Tid D : Type) where
  queued : Fifo (Stage × Priority) (StageJob D)
  registered : List (StageJob D)
  requests : List JobId
  purged : Nat → Bool
  delivered : List (Job (ResponseData D))
  pc : Tid → Pc D

def Sys.chain (s : Sys Tid D) : Chain Tid D :=
  ⟨s.queued, s.registered, s.requests, s.purged, s.delivered, s.pc⟩

/-- The lists without the jobs of an id in a stage. -/
def sweepStage (queued : Fifo (Stage × Priority) (StageJob D)) (stage : Stage) (jobId : JobId) :
    Fifo (Stage × Priority) (StageJob D) :=
  fun x => if x.1 = stage then (queued x).filter (!·.jobId == jobId) else queued x

variable [DecidableEq Tid]

/-- A thread that holds a job goes on with it. -/
inductive Works (purged : Nat → Bool) : Pc D → Pc D → Prop where
  | act {j : StageJob D} (fresh : purged j.purgeState = false) : Works purged (.taken j) (.acting j)
  | send {job : Job (RequestData D)} : Works purged (.acting (.request job)) (.sent job)
  | header {job : Job (ResponseData D)} (data : ResponseData D) (same : data.purgeState = job.jobData.purgeState)
      (object : data.object.isSome = true) :
      Works purged (.acting (.response job)) (.reading { job with jobData := data })
  | read {job : Job (ResponseData D)} (bytes : List UInt8) :
      Works purged (.reading job) (.reading { job with jobData := job.jobData.store bytes })
  | stop {job : Job (ResponseData D)} (closed : Bool) : Works purged (.reading job) (.finished job closed)
  | complete {job : Job (ResponseData D)} {closed : Bool} (complete : job.jobData.complete = true) :
      Works purged (.finished job closed) (.completed job)
  | monitor {job : Job (ResponseData D)} : Works purged (.finished job false) (.monitoring job)
  | pass {j : StageJob D} {soc : Int} (fresh : purged j.purgeState = false) :
      Works purged (.called j soc) (.passing (j.forward soc))

/-- A thread gives its job to the reactor. -/
inductive Registers : Pc D → StageJob D → Prop where
  | connect {job : Job (ConnectDataInternal D)} : Registers (.acting (.connect job)) (.connect job)
  | request {job : Job (RequestData D)} : Registers (.sent job) (.request job)
  | response {job : Job (ResponseData D)} : Registers (.monitoring job) (.response job)

/-- A thread drops its job without calling `done`. -/
inductive Drops (purged : Nat → Bool) : Pc D → Prop where
  | taken {j : StageJob D} (set : purged j.purgeState = true) : Drops purged (.taken j)
  | called {j : StageJob D} {soc : Int} : Drops purged (.called j soc)
  | closed {job : Job (ResponseData D)} : Drops purged (.finished job true)
  | late {job : Job (ResponseData D)} (set : purged job.jobData.purgeState = true) : Drops purged (.completed job)

/-- The steps of the chain. -/
inductive Chain.Step (cfg : Config) (c : Chain Tid D) : Chain Tid D → Prop where
  | stay : Step cfg c c
  | dispatch {t : Tid} {d : Dispatching D} (pc : c.pc t = .outside) (fresh : d.purgeState = c.requests.length) :
      Step cfg c { c with
        requests := c.requests ++ [d.job.jobId]
        pc := Function.update c.pc t (.dispatching d) }
  | duplicate {t : Tid} {d : Dispatching D} {job : Job (ConnectDataInternal D)} (pc : c.pc t = .dispatching d)
      (le : d.prio ≤ d.maxPrio) (dup : d.duplicate = some job) (list : (.connect, job.priority) ∈ cfg.lists) :
      Step cfg c { c with
        queued := c.queued.push (.connect, job.priority) (.connect job)
        pc := Function.update c.pc t (.dispatching { d with i := d.i + 1, prio := d.prio + 1 }) }
  | dispatched {t : Tid} {d : Dispatching D} (pc : c.pc t = .dispatching d) :
      Step cfg c { c with pc := Function.update c.pc t .outside }
  | take {t : Tid} {stage : Stage} {prio : Priority} {j : StageJob D} {queued : Fifo (Stage × Priority) (StageJob D)}
      (pc : c.pc t = .outside) (pops : c.queued.Pops (stage, prio) j queued) (list : (stage, prio) ∈ cfg.lists) :
      Step cfg c { c with queued := queued, pc := Function.update c.pc t (.taken j) }
  | work {t : Tid} {p : Pc D} (works : Works c.purged (c.pc t) p) :
      Step cfg c { c with pc := Function.update c.pc t p }
  | register {t : Tid} {j : StageJob D} (registers : Registers (c.pc t) j) :
      Step cfg c { c with registered := c.registered ++ [j], pc := Function.update c.pc t .outside }
  | fire {t : Tid} {i : Nat} {j : StageJob D} (soc : Int) (pc : c.pc t = .outside) (reg : c.registered[i]? = some j) :
      Step cfg c { c with registered := c.registered.eraseIdx i, pc := Function.update c.pc t (.called j soc) }
  | lose {i : Nat} : Step cfg c { c with registered := c.registered.eraseIdx i }
  | drop {t : Tid} (drops : Drops c.purged (c.pc t)) : Step cfg c { c with pc := Function.update c.pc t .outside }
  | win {t : Tid} {job : Job (ResponseData D)} (pc : c.pc t = .completed job)
      (fresh : c.purged job.jobData.purgeState = false) :
      Step cfg c { c with
        purged := Function.update c.purged job.jobData.purgeState true
        pc := Function.update c.pc t (.delivering job) }
  | deliver {t : Tid} {job : Job (ResponseData D)} (pc : c.pc t = .delivering job) :
      Step cfg c { c with
        delivered := c.delivered ++ [job]
        pc := Function.update c.pc t (.sweeping .connect job.jobId) }
  | sweep {t : Tid} {stage : Stage} {jobId : JobId} {p : Pc D} (pc : c.pc t = .sweeping stage jobId)
      (next : p = .outside ∨ ∃ stage', p = .sweeping stage' jobId) :
      Step cfg c { c with queued := sweepStage c.queued stage jobId, pc := Function.update c.pc t p }
  | pass {t : Tid} {j : StageJob D} (pc : c.pc t = .passing j) (list : (j.stage, j.priority) ∈ cfg.lists) :
      Step cfg c { c with queued := c.queued.push (j.stage, j.priority) j, pc := Function.update c.pc t .outside }

end Dans.Client
