import Dans.ProxyJobs

/-! Sockets by their numbers. `TcpPipe` of `proxy_dstage.cc` tells its two sockets apart by the numbers that the kernel gave
    them, and goes through the pointers to their connections in the order written here; and the kernel gives a number
    again once its socket is closed. -/

namespace Dans.ProxyJobs

namespace PipeJob

/-- `TcpPipe::Which`. -/
def which (r : PipeJob) (soc : Int) : String :=
  if r.inp.soc = soc then "client"
  else if r.out.any (fun c => decide (c.soc = soc)) then "server"
  else "?"

/-- `TcpPipe::OtherSocket`. -/
def otherSocket (r : PipeJob) (soc : Int) : Int :=
  if r.inp.soc ≠ soc then r.inp.soc
  else match r.out with
    | some c => if c.soc ≠ soc then c.soc else -1
    | none => -1

/-- `TcpPipe::ShutdownOther`; there is no result where it dereferences a null pointer. -/
def shutdownOther (r : PipeJob) (soc : Int) : Option PipeJob :=
  if r.inp.soc ≠ soc then r.out.map fun c => { r with out := some c.setShutdown, inp := r.inp.issue }
  else match r.out with
    | some c => if c.soc ≠ soc then some { r with inp := r.inp.setShutdown, out := some c.issue } else some r
    | none => some r

end PipeJob

/-! ### The sockets that are open -/

/-- The job and the socket that `Connect` has made for it, before there is a `Connection`. -/
def Closure.dials : Closure → Option (Nat × Int)
  | connect j soc => some (j, soc)
  | serve _ | first _ | cliClosed _ | monitor _ _ => none

def Task.dials : Task → Option (Nat × Int)
  | connectCallback j soc _ => some (j, soc)
  | monitorCallback _ _ _ | cliClosedCallback _ _ => none

def Work.dials : Work → Option (Nat × Int)
  | connect j soc _ => some (j, soc)
  | _ => none

variable {S W : Type}

/-- The number is that of a socket of a job, or of one on its way to be. -/
def Sys.IsOpen (s : Sys S W) (soc : Int) : Prop :=
  (∃ j, j < s.jobCount ∧ (s.jobs j).destroyed = false ∧
    ((s.jobs j).inp.soc = soc ∨ (s.jobs j).out.map (·.soc) = some soc)) ∨
  (∃ cb ∈ s.epoll ++ s.batch, cb.closure.dials.map (·.2) = some soc) ∨
  (∃ task ∈ s.tasks, task.dials.map (·.2) = some soc) ∨ ∃ w, (s.work w).dials.map (·.2) = some soc

instance [Fintype W] (s : Sys S W) (soc : Int) : Decidable (s.IsOpen soc) :=
  inferInstanceAs (Decidable ((∃ j, j < s.jobCount ∧ (s.jobs j).destroyed = false ∧
    ((s.jobs j).inp.soc = soc ∨ (s.jobs j).out.map (·.soc) = some soc)) ∨
  (∃ cb ∈ s.epoll ++ s.batch, cb.closure.dials.map (·.2) = some soc) ∨
  (∃ task ∈ s.tasks, task.dials.map (·.2) = some soc) ∨ ∃ w, (s.work w).dials.map (·.2) = some soc))

/-- `accept4` and `socket` give numbers that are not in use; a socket that cannot be made is `-1`, and is not waited for. -/
def Sys.kernel (s : Sys S W) : Label S W → Prop
  | .accept soc => 0 ≤ soc ∧ ¬s.IsOpen soc
  | .connect _ soc inProgress => 0 ≤ soc ∧ ¬s.IsOpen soc ∨ soc = -1 ∧ inProgress = false
  | _ => True

instance [Fintype W] (s : Sys S W) (l : Label S W) : Decidable (s.kernel l) :=
  match l with
  | .accept soc => inferInstanceAs (Decidable (0 ≤ soc ∧ ¬s.IsOpen soc))
  | .connect _ soc inProgress =>
    inferInstanceAs (Decidable (0 ≤ soc ∧ ¬s.IsOpen soc ∨ soc = -1 ∧ inProgress = false))
  | .wait _ | .invoke _ _ _ | .accepted | .finish | .purge | .destroy _ | .take _ _ | .schedule _ | .start _ | .work _
  | .pipe _ _ _ _ | .clearSizes | .report => inferInstanceAs (Decidable True)

end Dans.ProxyJobs
