import Mathlib.Algebra.Order.BigOperators.Group.List
import Dans.Lib.Tally
import Dans.Theorems.ProxySteps

/-! Counting what belongs to a job, or to a callback, over all the places where it can be. A step takes what it counts
    from some places and puts at most as much into others, so that what there is once is there at most once ever. -/

namespace Dans.ProxyJobs
open Tally
open Client (ReadyFor)

variable {S W : Type}

/-! ### Places -/

/-- Where a job or a callback can be. -/
inductive Place where
  | queued (job : Nat)
  | sched (c : Sched)
  | armed (cb : Callback)
  | fetched (cb : Callback)
  /-- In the hands of the reactor. -/
  | running (cb : Callback)
  | task (task : Task)
  | work (c : Work)

/-- The callback that the reactor runs. -/
def Loop.running? : Loop → Option Callback
  | between => none
  | accepting cb _ | running cb => some cb

section Weight
variable [Fintype S] [Fintype W]

/-- The sum of `f` over all places. -/
def Sys.weight (f : Place → Nat) (s : Sys S W) : Nat :=
  (s.queue.map fun j => f (.queued j)).sum + tally (fun c => f (.sched c)) s.sched +
    (s.epoll.map fun cb => f (.armed cb)).sum + (s.batch.map fun cb => f (.fetched cb)).sum +
    (s.loop.running?.toList.map fun cb => f (.running cb)).sum + (s.tasks.map fun task => f (.task task)).sum +
    tally (fun c => f (.work c)) s.work

end Weight

/-- The places that a step takes from and puts into, and the numbers of callbacks and of jobs after it. -/
inductive Turn (n k : Nat) : List Place → List Place → Nat → Nat → Prop where
  | stay : Turn n k [] [] n k
  | fetch (cbs : List Callback) : Turn n k (cbs.map .armed) (cbs.map .fetched) n k
  | serve (id : Nat) (p : Priority) :
      Turn n k [.fetched ⟨id, .serve p⟩] [.running ⟨id, .serve p⟩, .armed ⟨n, .serve p⟩] (n + 1) k
  | quiet {cb : Callback} (kind : (∃ p, cb.closure = .serve p) ∨ ∃ j, cb.closure = .first j) :
      Turn n k [.fetched cb] [.running cb] n k
  | cliClosed (id j : Nat) (ready : ReadyFor) :
      Turn n k [.fetched ⟨id, .cliClosed j⟩] [.running ⟨id, .cliClosed j⟩, .task (.cliClosedCallback j ready)] n k
  | connected (id j : Nat) (soc : Int) (ready : ReadyFor) :
      Turn n k [.fetched ⟨id, .connect j soc⟩] [.running ⟨id, .connect j soc⟩, .task (.connectCallback j soc ready)] n k
  | monitored (id j : Nat) (side : Side) (ready : ReadyFor) :
      Turn n k [.fetched ⟨id, .monitor j side⟩] [.running ⟨id, .monitor j side⟩, .task (.monitorCallback j side ready)] n k
  | accept : Turn n k [] [.queued k, .armed ⟨n, .first k⟩] (n + 1) (k + 1)
  | finish (cb : Callback) : Turn n k [.running cb] [] n k
  | purge (j : Nat) : Turn n k [.queued j] [] n k
  | take (j : Nat) : Turn n k [.queued j, .sched .idle] [.sched (.scheduled j)] n k
  | schedule {r : PipeJob} {c : Sched} {a : Act Sched} (acts : c.Acts n r a) :
      Turn n k [.sched c] (.sched a.next :: a.register.toList.map fun c => .armed ⟨n, c⟩) (n + a.register.toList.length) k
  | connect (j : Nat) (soc : Int) :
      Turn n k [.sched (.connecting j)] [.sched (.testing j), .armed ⟨n, .connect j soc⟩] (n + 1) k
  | connectNow (j : Nat) (soc : Int) (ready : ReadyFor) :
      Turn n k [.sched (.connecting j)] [.sched (.testing j), .task (.connectCallback j soc ready)] n k
  | start (task : Task) : Turn n k [.task task, .work .idle] [.work task.start] n k
  | work {r : PipeJob} {c : Work} {a : Act Work} (acts : c.Acts r a) :
      Turn n k [.work c] (.work a.next :: a.register.toList.map fun c => .armed ⟨n, c⟩) (n + a.register.toList.length) k
  | pipe (j : Nat) (side : Side) {c : Work}
      (next : c = .shutOther .monitor j side ∨ c = .idle ∨ ∃ units, c = .report j side units) :
      Turn n k [.work (.piping j side)] [.work c] n k

section Steps
variable {s s' : Sys S W} {l : Label S W}

theorem sum_armed (g : Callback → Nat) (c : Option Closure) :
    ((s.armed c).map g).sum ≤ (s.epoll.map g).sum + (c.toList.map fun c => g ⟨s.heap.length, c⟩).sum := by
  cases c with
  | none => simp [Sys.armed]
  | some c =>
    have hsub : ((s.epoll.filter fun cb => cb.closure.socket ≠ c.socket).map g).sum ≤ (s.epoll.map g).sum :=
      (List.filter_sublist.map g).sum_le_sum fun _ _ => Nat.zero_le _
    simp only [Sys.armed, List.map_append, List.sum_append, List.map_cons, List.map_nil, List.sum_cons, List.sum_nil,
      Option.toList_some]
    omega

theorem Sched.Acts.submit {n : Nat} {r : PipeJob} {c : Sched} {a : Act Sched} (h : c.Acts n r a) : a.submit = none := by
  cases h <;> rfl

theorem Work.Acts.submit {r : PipeJob} {c : Work} {a : Act Work} (h : c.Acts r a) : a.submit = none := by
  cases h <;> rfl

variable [Fintype S] [Fintype W]

theorem weight_close_le (j : Nat) (f : Place → Nat) : (s.close j).weight f ≤ s.weight f := by
  have hepoll : ((s.epoll.filter fun cb => cb.closure.socket ≠ .pipe j .client ∧ cb.closure.socket ≠ .pipe j .server).map
      fun cb => f (.armed cb)).sum ≤ (s.epoll.map fun cb => f (.armed cb)).sum :=
    (List.filter_sublist.map _).sum_le_sum fun _ _ => Nat.zero_le _
  simp only [Sys.weight, Sys.close, Sys.setJob] at hepoll ⊢
  omega

variable [DecidableEq S] [DecidableEq W]

/-- What a step does to any count over the places. -/
theorem Step.turn (hs : Step s l s') : ∃ old new, Turn s.heap.length s.jobCount old new s'.heap.length s'.jobCount ∧
    ∀ f, s'.weight f + (old.map f).sum ≤ s.weight f + (new.map f).sum := by
  cases hs with
  | fault fails => exact ⟨_, _, .stay, fun f => Nat.le_refl _⟩
  | @wait sockets cbs epoll idle perm =>
    refine ⟨_, _, .fetch cbs, fun f => ?_⟩
    have hsum := (perm.map fun cb => f (.armed cb)).sum_eq
    simp only [List.map_append, List.sum_append] at hsum
    simp only [Sys.weight, List.map_append, List.sum_append, List.map_map, Function.comp_def]
    omega
  | @serve id p rest inp out err loop batch live =>
    refine ⟨_, _, by simpa using Turn.serve id p, fun f => ?_⟩
    have hsum := sum_armed (s := s) (fun cb => f (.armed cb)) (some (.serve p))
    simp [Sys.weight, Loop.running?, loop, batch] at hsum ⊢
    omega
  | @closing id p rest inp out err loop batch live =>
    refine ⟨_, _, @Turn.quiet _ _ ⟨id, .serve p⟩ (Or.inl ⟨p, rfl⟩), fun f => ?_⟩
    simp [Sys.weight, Loop.running?, loop, batch]
    omega
  | @first id j rest inp out err loop batch live =>
    refine ⟨_, _, @Turn.quiet _ _ ⟨id, .first j⟩ (Or.inr ⟨j, rfl⟩), fun f => ?_⟩
    simp [Sys.weight, Loop.running?, loop, batch]
    omega
  | @cliClosed id j rest inp out err ready loop batch live =>
    refine ⟨_, _, .cliClosed id j ready, fun f => ?_⟩
    simp [Sys.weight, Loop.running?, loop, batch]
    omega
  | @connected id j soc rest inp out err ready loop batch live =>
    refine ⟨_, _, .connected id j soc ready, fun f => ?_⟩
    simp [Sys.weight, Loop.running?, loop, batch]
    omega
  | @monitored id j side rest inp out err ready loop batch live =>
    refine ⟨_, _, .monitored id j side ready, fun f => ?_⟩
    simp [Sys.weight, Loop.running?, loop, batch]
    omega
  | accept loop =>
    refine ⟨_, _, by simpa using Turn.accept, fun f => ?_⟩
    have hsum := sum_armed (s := s) (fun cb => f (.armed cb)) (some (.first s.jobCount))
    simp [Sys.weight] at hsum ⊢
    omega
  | accepted loop =>
    refine ⟨_, _, .stay, fun f => ?_⟩
    simp [Sys.weight, Loop.running?, loop]
  | @finish cb loop live =>
    refine ⟨_, _, .finish cb, fun f => ?_⟩
    simp [Sys.weight, Loop.running?, loop]
    omega
  | late _ | clearSizes | report => exact ⟨_, _, .stay, fun f => Nat.le_refl _⟩
  | @purge j rest purges mem =>
    refine ⟨_, _, .purge j, fun f => ?_⟩
    have hqueue := List.sum_map_erase (fun j => f (.queued j)) mem
    have hclose := weight_close_le (s := s) j f
    simp only [Sys.weight, Sys.close, Sys.setJob, List.map_cons, List.map_nil, List.sum_cons, List.sum_nil]
      at hqueue hclose ⊢
    omega
  | @destroy j _ _ lt queue fresh dead stat => exact ⟨_, _, .stay, weight_close_le (s := s) j⟩
  | @take t j idle mem =>
    refine ⟨_, _, .take j, fun f => ?_⟩
    have hqueue := List.sum_map_erase (fun j => f (.queued j)) mem
    have hsched := tally_update (fun c => f (.sched c)) s.sched t (.scheduled j)
    rw [idle] at hsched
    simp only [Sys.weight, List.map_cons, List.map_nil, List.sum_cons, List.sum_nil] at hqueue hsched ⊢
    omega
  | @schedule t j a job acts live =>
    refine ⟨_, _, by simpa [Sys.perform] using Turn.schedule acts, fun f => ?_⟩
    have hsum := sum_armed (s := s) (fun cb => f (.armed cb)) a.register
    have hsched := tally_update (fun c => f (.sched c)) s.sched t a.next
    simp [Sys.weight, Sys.perform, acts.submit, Function.comp_def] at hsum hsched ⊢
    omega
  | @connect t j soc sched =>
    refine ⟨_, _, by simpa using Turn.connect j soc, fun f => ?_⟩
    have hsum := sum_armed (s := s) (fun cb => f (.armed cb)) (some (.connect j soc))
    have hsched := tally_update (fun c => f (.sched c)) s.sched t (.testing j)
    rw [sched] at hsched
    simp [Sys.weight] at hsum hsched ⊢
    omega
  | @connectNow t j soc sched =>
    refine ⟨_, _, .connectNow j soc ⟨false, false, 0⟩, fun f => ?_⟩
    have hsched := tally_update (fun c => f (.sched c)) s.sched t (.testing j)
    rw [sched] at hsched
    simp [Sys.weight] at hsched ⊢
    omega
  | @start w task rest idle tasks =>
    refine ⟨_, _, .start task, fun f => ?_⟩
    have hwork := tally_update (fun c => f (.work c)) s.work w task.start
    rw [idle] at hwork
    simp [Sys.weight, tasks] at hwork ⊢
    omega
  | @work w j a job acts live =>
    refine ⟨_, _, by simpa [Sys.perform] using Turn.work acts, fun f => ?_⟩
    have hsum := sum_armed (s := s) (fun cb => f (.armed cb)) a.register
    have hwork := tally_update (fun c => f (.work c)) s.work w a.next
    simp [Sys.weight, Sys.perform, acts.submit, Function.comp_def] at hsum hwork ⊢
    omega
  | @pipe w j side reads sends m p work pipe =>
    refine ⟨_, _, .pipe j side (Work.piped_cases j side ((s.jobs j).soc side) p.ret), fun f => ?_⟩
    have hwork := tally_update (fun c => f (.work c)) s.work w (.piped j side ((s.jobs j).soc side) p.ret)
    rw [work] at hwork
    simp [Sys.weight] at hwork ⊢
    omega

/-! ### Bounds -/

/-- No step puts more into places than it takes, as far as the number of callbacks and of jobs does not allow it. -/
def Bounded (f : Place → Nat) (b : Nat → Nat → Nat) : Prop :=
  ∀ {n k n' k' : Nat} {old new : List Place}, Turn n k old new n' k' → (new.map f).sum + b n k ≤ (old.map f).sum + b n' k'

variable {xs : List (Sys S W × Label S W)}

theorem weight_le_of_run {f : Place → Nat} {b : Nat → Nat → Nat} (hf : Bounded f b)
    (init : (system S W).init.weight f ≤ b 2 0) (run : (system S W).Run xs s) : s.weight f ≤ b s.heap.length s.jobCount := by
  refine run.always (P := fun s => s.weight f ≤ b s.heap.length s.jobCount) init fun _ h hn => ?_
  obtain ⟨old, new, hturn, hweight⟩ := (next_step hn).2.turn
  have hbound := hf hturn
  have hle := hweight f
  omega

end Steps

/-! ### The pipe of a socket -/

/-- The socket whose `MonitorCallback` the closure, or the task, leads to. -/
def Closure.monitors : Closure → Option (Nat × Side)
  | monitor j side => some (j, side)
  | serve _ | first _ | cliClosed _ | connect _ _ => none

def Task.monitors : Task → Option (Nat × Side)
  | monitorCallback j side _ => some (j, side)
  | connectCallback _ _ _ | cliClosedCallback _ _ => none

/-- The socket whose `MonitorCallback` the worker runs, up to the `Monitor` at its end. -/
def Work.monitors : Work → Option (Nat × Side)
  | monitor j side _ | piping j side | report j side _ | adding j side _ _ | rearm j side | shutOther .monitor j side
  | shutting .monitor j side => some (j, side)
  | _ => none

/-- The socket whose `MonitorCallback` the worker runs. -/
def Work.runs : Work → Option (Nat × Side)
  | returning j side => some (j, side)
  | c => c.monitors

/-- The job whose socket is still to be given to its first `MonitorCallbackWrapper`. -/
def Sched.awaits : Sched → Option Nat
  | scheduled j | monitored j _ | connecting j => some j
  | idle | testing _ | deleting _ | clearing _ => none

def Closure.awaits : Closure → Option Nat
  | connect j _ => some j
  | serve _ | first _ | cliClosed _ | monitor _ _ => none

def Task.awaits : Task → Option Nat
  | connectCallback j _ _ => some j
  | monitorCallback _ _ _ | cliClosedCallback _ _ => none

def Work.awaits (side : Side) : Work → Option Nat
  | connect j _ _ | monitorIn j => some j
  | monitorOut j => if side = .server then some j else none
  | _ => none

/-- What leads to a `MonitorCallback` of the socket, now or once its job is connected. -/
def Place.token (j : Nat) (side : Side) : Place → Nat
  | queued j' => if j' = j then 1 else 0
  | sched c => if c.awaits = some j then 1 else 0
  | armed cb | fetched cb =>
    (if cb.closure.awaits = some j then 1 else 0) + if cb.closure.monitors = some (j, side) then 1 else 0
  | running _ => 0
  | task t => (if t.awaits = some j then 1 else 0) + if t.monitors = some (j, side) then 1 else 0
  | work c => (if c.awaits side = some j then 1 else 0) + if c.monitors = some (j, side) then 1 else 0

theorem token_bounded (j : Nat) (side : Side) : Bounded (Place.token j side) fun _ k => if j < k then 1 else 0 := by
  intro n k n' k' old new hturn
  cases hturn with
  | stay => exact Nat.le_refl _
  | fetch cbs => simp [Place.token, Function.comp_def]
  | quiet kind => rcases kind with ⟨p, hp⟩ | ⟨p, hp⟩ <;> simp [Place.token, hp, Closure.awaits, Closure.monitors]
  | serve id p => simp [Place.token, Closure.awaits, Closure.monitors]
  | cliClosed id j' ready => simp [Place.token, Closure.awaits, Closure.monitors, Task.awaits, Task.monitors]
  | connected id j' soc ready => simp [Place.token, Closure.awaits, Closure.monitors, Task.awaits, Task.monitors]
  | monitored id j' side' ready => simp [Place.token, Closure.awaits, Closure.monitors, Task.awaits, Task.monitors]
  | accept =>
    simp only [Place.token, Closure.awaits, Closure.monitors, List.map_cons, List.map_nil, List.sum_cons, List.sum_nil]
    split_ifs <;> first | omega | contradiction
  | finish cb => simp [Place.token]
  | purge j' => simp
  | take j' => simp [Place.token, Sched.awaits]
  | schedule acts =>
    cases acts with
    | test next => rcases next with rfl | rfl <;> simp [Place.token, Sched.awaits]
    | monitor | assign | delete | clear => simp [Place.token, Sched.awaits, Closure.awaits, Closure.monitors]
  | connect j' soc => simp [Place.token, Sched.awaits, Closure.awaits, Closure.monitors]
  | connectNow j' soc ready => simp [Place.token, Sched.awaits, Task.awaits, Task.monitors]
  | start task =>
    cases task <;> simp [Place.token, Task.awaits, Task.monitors, Task.start, Work.awaits, Work.monitors]
  | work acts =>
    cases acts with
    | connect next | test next | monitor next | cliClosed next =>
      rcases next with rfl | rfl <;> simp [Place.token, Work.awaits, Work.monitors]
    | monitorIn | monitorOut =>
      cases side <;> simp [Place.token, Work.awaits, Work.monitors, Closure.awaits, Closure.monitors]
    | delete | clear | report | add | rearm | leave =>
      simp [Place.token, Work.awaits, Work.monitors, Closure.awaits, Closure.monitors]
    | @alone caller _ _ _ | @setShutdown caller _ _ _ | @shutdown caller _ _ =>
      cases caller <;> simp [Place.token, Work.awaits, Work.monitors]
  | pipe j' side' next => rcases next with rfl | rfl | ⟨units, rfl⟩ <;> simp [Place.token, Work.awaits, Work.monitors]

/-- The armed registrations, the events at the reactor, the tasks and the workers that there are for the
    `MonitorCallback` of a socket. -/
def Sys.monitors [Fintype W] (running : Work → Option (Nat × Side)) (s : Sys S W) (j : Nat) (side : Side) : Nat :=
  s.epoll.countP (fun cb => cb.closure.monitors = some (j, side)) +
    s.batch.countP (fun cb => cb.closure.monitors = some (j, side)) +
    s.tasks.countP (fun task => task.monitors = some (j, side)) +
    (Finset.univ.filter fun w => running (s.work w) = some (j, side)).card

variable [Fintype S] [Fintype W] [DecidableEq S] [DecidableEq W] {s : Sys S W} {xs : List (Sys S W × Label S W)}

omit [DecidableEq S] [DecidableEq W] in
theorem monitors_le_weight (s : Sys S W) (j : Nat) (side : Side) :
    s.monitors Work.monitors j side + (s.queue.map fun j' => Place.token j side (.queued j')).sum +
      tally (fun c => Place.token j side (.sched c)) s.sched ≤ s.weight (Place.token j side) := by
  have hepoll := countP_le_sum (p := fun cb : Callback => cb.closure.monitors = some (j, side))
    (g := fun cb => Place.token j side (.armed cb)) (fun _ h => by simp [Place.token, of_decide_eq_true h]) s.epoll
  have hbatch := countP_le_sum (p := fun cb : Callback => cb.closure.monitors = some (j, side))
    (g := fun cb => Place.token j side (.fetched cb)) (fun _ h => by simp [Place.token, of_decide_eq_true h]) s.batch
  have htasks := countP_le_sum (p := fun task : Task => task.monitors = some (j, side))
    (g := fun task => Place.token j side (.task task)) (fun _ h => by simp [Place.token, of_decide_eq_true h]) s.tasks
  have hwork := card_le_tally (p := fun c : Work => c.monitors = some (j, side))
    (f := fun c => Place.token j side (.work c)) (fun _ h => by simp [Place.token, h]) s.work
  simp only [Sys.monitors, Sys.weight]
  omega

theorem token_le_one (run : (system S W).Run xs s) (j : Nat) (side : Side) : s.weight (Place.token j side) ≤ 1 := by
  have init : (system S W).init.weight (Place.token j side) ≤ 0 := by
    simp [Sys.weight, system, tally, Place.token, Loop.running?, Sched.awaits, Work.awaits, Work.monitors, Closure.awaits,
      Closure.monitors]
  refine (weight_le_of_run (token_bounded j side) init run).trans ?_
  split <;> omega

/-- For each socket of a job there is at most one armed registration, event, task or worker that has not re-armed the
    socket yet, for its `MonitorCallback`; so no two workers read from it at a time. -/
theorem one_monitorCallback (run : (system S W).Run xs s) (j : Nat) (side : Side) :
    s.monitors Work.monitors j side ≤ 1 ∧
      ∀ w w', s.work w = .piping j side → s.work w' = .piping j side → w = w' := by
  have hle := monitors_le_weight s j side
  have hone : s.monitors Work.monitors j side ≤ 1 := by
    have := token_le_one run j side
    omega
  refine ⟨hone, fun w w' hw hw' => ?_⟩
  have hcard : (Finset.univ.filter fun w => (s.work w).monitors = some (j, side)).card ≤ 1 := by
    simp only [Sys.monitors] at hone
    omega
  have hmem : ∀ {w}, s.work w = .piping j side → w ∈ Finset.univ.filter fun w => (s.work w).monitors = some (j, side) :=
    fun hw => Finset.mem_filter.mpr ⟨Finset.mem_univ _, by rw [hw]; rfl⟩
  exact Finset.card_le_one.mp hcard w (hmem hw) w' (hmem hw')

/-- A connection is accepted, scheduled and connected, and both sockets of its job are given to `Monitor`. -/
def openPipe (t : S) (w : W) : List (Label S W) :=
  [.wait [.listen 0], .invoke true false 0, .accept 5, .accepted, .finish, .take t 0, .schedule t, .schedule t,
    .connect t 6 true, .schedule t, .schedule t, .schedule t, .wait [.pipe 0 .server], .invoke false true 0, .finish, .start w] ++
    List.replicate 6 (.work w)

/-- The client sends a byte, which a worker takes from the event to `Pipe`. -/
def readClient (w : W) : List (Label S W) :=
  [.wait [.pipe 0 .client], .invoke true false 0, .finish, .start w, .work w]

theorem one_monitorCallback_piping : ∃ xs s, (system Unit Unit).Run xs s ∧ s.work () = .piping 0 .client ∧
    s.monitors Work.monitors 0 .client ≤ 1 := by
  obtain ⟨xs, s, run, -, hs⟩ := Lts.run_of_exec_any (system Unit Unit) (openPipe () () ++ readClient ())
    (fun s => decide (s.work () = .piping 0 .client)) (by decide)
  exact ⟨xs, s, run, of_decide_eq_true hs, (one_monitorCallback run 0 .client).1⟩

/-- The worker has re-armed the socket, and has not returned yet from its `MonitorCallback`. -/
theorem monitors_while_returning : ∃ xs s, (system Unit Unit).Run xs s ∧ s.monitors Work.runs 0 .client = 2 := by
  obtain ⟨xs, s, run, -, hs⟩ := Lts.run_of_exec_any (system Unit Unit)
    (openPipe () () ++ readClient () ++ [.pipe () [.bytes [7], .error TcpPipe.EAGAIN] [.sent 1] fun _ => 0] ++
      List.replicate 3 (.work ()))
    (fun s => decide (s.monitors Work.runs 0 .client = 2)) (by decide)
  exact ⟨xs, s, run, of_decide_eq_true hs⟩

end Dans.ProxyJobs
