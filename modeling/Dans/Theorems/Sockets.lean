import Dans.CommunicationHandler
import Dans.ProxyJobs

/-! What the callbacks of the communication handler are told. `Connect2` calls `done` once for each outcome of `connect`,
    but with neither flag set and no error where the answer comes at once; the loop of `accept4` ends while there are
    descriptors for all pending connections, and never where they run out. -/

namespace Dans.CommunicationHandler
open TcpPipe (EAGAIN EWOULDBLOCK)

/-! ### `Connect` -/

/-- An outcome of `connect`: at once, or in progress until an event, when the socket has this error. -/
inductive Outcome where
  | success
  | failure (errno : Nat)
  | inProgress (soError : Int) (events : UInt32)
  deriving DecidableEq, Repr

namespace Outcome

/-- A failure at once has another `errno` than `EINPROGRESS`, and a success later on is signalled with `EPOLLOUT`. -/
def Signalled : Outcome → Prop
  | success => True
  | failure errno => errno ≠ EINPROGRESS
  | inProgress soError events => soError = 0 → events &&& EPOLLOUT ≠ 0

/-- The connection was established. -/
def established : Outcome → Bool
  | success => true
  | failure _ => false
  | inProgress soError _ => soError = 0

def deferred : Outcome → Bool
  | success | failure _ => false
  | inProgress _ _ => true

def result : Outcome → ConnectResult
  | success => .success
  | failure errno => .error errno
  | inProgress _ _ => .error EINPROGRESS

/-- The event of a socket that is in progress. -/
def event : Outcome → Option (Int × UInt32)
  | success | failure _ => none
  | inProgress soError events => some (soError, events)

/-- All calls of `done` that a `Connect2` leads to: its own ones, and that of the callback in the epoll set, which is
    called for one event. -/
def calls (o : Outcome) (soc : Int) : List Done :=
  let (own, registration) := connect2 soc o.result
  own ++ (registration.bind fun r => o.event.map fun e => monitorSocketReady r.soc (some e.1) e.2).toList

end Outcome

/-- The flags and the error say whether the connection was established. -/
def ReadyFor.Reports (ready : ReadyFor) (established : Bool) : Prop :=
  (established = true → ready.out = true ∧ ready.err = 0) ∧ (established = false → ready.err ≠ 0)

/-- What the callbacks of the client and of the proxy look at. -/
def ReadyFor.told (ready : ReadyFor) : Client.ReadyFor := ⟨ready.inp, ready.out, ready.err⟩

/-- The `ReadyFor` of the one call that an outcome leads to. -/
def Outcome.ready : Outcome → ReadyFor
  | success | failure _ => { inp := false, out := false }
  | inProgress soError events => (monitorSocketReady 0 (some soError) events).readyFor

theorem monitorSocketReady_eq (soc soc' : Int) (soError : Option Int) (events : UInt32) :
    monitorSocketReady soc soError events = ⟨soc, (monitorSocketReady soc' soError events).readyFor⟩ := by
  unfold monitorSocketReady
  dsimp only
  split <;> rfl

theorem Outcome.calls_eq {o : Outcome} (h : o.Signalled) (soc : Int) : o.calls soc = [⟨soc, o.ready⟩] := by
  cases o with
  | success => rfl
  | failure errno =>
    have hne : errno ≠ EINPROGRESS := h
    simp [calls, result, connect2, hne, event, ready]
  | inProgress soError events =>
    have hcalls : (inProgress soError events).calls soc = [monitorSocketReady soc (some soError) events] := rfl
    rw [hcalls, monitorSocketReady_eq soc 0, ready]

theorem Outcome.reports {o : Outcome} (h : o.Signalled) (hdeferred : o.deferred = true) :
    o.ready.Reports o.established := by
  cases o with
  | success | failure _ => cases hdeferred
  | inProgress soError events =>
    have hout : soError = 0 → events &&& EPOLLOUT ≠ 0 := h
    by_cases hzero : soError = 0
    · simp [ReadyFor.Reports, ready, monitorSocketReady, checkForSocketErrors, established, hzero, hout hzero]
    · simp [ReadyFor.Reports, ready, monitorSocketReady, checkForSocketErrors, established, hzero]

theorem Outcome.ready_of_not_deferred {o : Outcome} (h : o.deferred = false) :
    o.ready = { inp := false, out := false } := by
  cases o with
  | success | failure _ => rfl
  | inProgress _ _ => cases h

/-! ### The consumers -/

section Consumers
variable {ready : ReadyFor} {established : Bool}

theorem ReadyFor.Reports.err_eq_zero_iff (h : ready.Reports established) : ready.err = 0 ↔ established = true := by
  cases established with
  | true => exact iff_of_true (h.1 rfl).2 rfl
  | false => simp [h.2 rfl]

/-- `ConnectScheduler` forwards a job exactly when connected, and its check holds. -/
theorem ReadyFor.Reports.connectCallback (h : ready.Reports established) (isPurged : Bool) (soc : Int) :
    connectCallback isPurged soc ready ≠ .checkFailed ∧
      (connectCallback isPurged soc ready = .forwarded ↔ established = true ∧ isPurged = false ∧ 0 ≤ soc) := by
  unfold CommunicationHandler.connectCallback
  cases established with
  | true =>
    obtain ⟨hout, herr⟩ := h.1 rfl
    rw [if_neg (not_not_intro herr), if_neg (by simp [hout])]
    repeat' split
    all_goals simp_all
  | false =>
    rw [if_pos (h.2 rfl)]
    simp

/-- The worker of the proxy goes on to monitor both sockets, which sets up the pipe, where it sees the flag and no error. -/
theorem act_connect_iff (r : ProxyJobs.PipeJob) (job : Nat) (soc : Int) (ready : ReadyFor) :
    ∃ a, ProxyJobs.Work.act r (.connect job soc ready.told) = some a ∧
      (a.next = .monitorIn job ↔ ready.out = true ∧ ready.err = 0) := by
  refine ⟨_, rfl, ?_⟩
  unfold ReadyFor.told
  cases hout : ready.out with
  | false => simp
  | true => by_cases herr : ready.err = 0 <;> simp [herr]

theorem ReadyFor.Reports.out_iff (h : ready.Reports established) :
    ready.out = true ∧ ready.err = 0 ↔ established = true := by
  rw [h.err_eq_zero_iff]
  constructor
  · exact And.right
  · intro he
    exact ⟨(h.1 he).1, he⟩

end Consumers

/-! ### The models of the client and of the proxy -/

section Models
open ProxyJobs (Closure Sched PipeJob)

/-- The callback that waits for the server of a job is told what `MonitorSocketReady` calls `done` with. -/
theorem closure_ready_eq (job : Nat) (soc err : Int) (events : UInt32) :
    (Closure.connect job soc).ready (events &&& EPOLLIN ≠ 0) (events &&& EPOLLOUT ≠ 0) err =
      (monitorSocketReady soc (some err) events).readyFor.told := by
  unfold Closure.ready monitorSocketReady checkForSocketErrors
  by_cases herr : err = 0 <;> simp [herr, Closure.asks, ReadyFor.told]

/-- The proxy's `Connect` leaves the callback in the epoll set or submits the call that `Connect2` makes. -/
theorem sched_connect_eq (r : PipeJob) (job : Nat) {o : Outcome} (h : o.Signalled) (soc : Int) :
    Sched.connect r soc o.deferred (.connecting job) = some
      { next := .testing job, job := r
        register := (connect2 soc o.result).2.map fun c => .connect job c.soc
        submit := (connect2 soc o.result).1.head?.map fun d => .connectCallback job d.soc d.readyFor.told } := by
  cases o with
  | success => rfl
  | failure errno =>
    have hne : errno ≠ EINPROGRESS := h
    simp [Sched.connect, Outcome.deferred, Outcome.result, connect2, hne, ReadyFor.told]
  | inProgress soError events => rfl

variable {Tid D : Type} [DecidableEq Tid]

/-- In the chain of the client the event of a connecting socket and the step behind it are `ConnectCallback`. -/
theorem fire_connect {cfg : Client.Config} {s : Client.Sys Tid D} {t : Tid} {i : Nat}
    {job : Job (ConnectDataInternal D)} (hpc : s.pc t = .outside) (hreg : s.registered[i]? = some (.connect job))
    (soc : Int) (ready : ReadyFor) : ∃ s', s.fire t i soc ready.told = some s' ∧
      match connectCallback (s.purged job.jobData.purgeState) soc ready with
      | .failed => s'.pc t = .outside ∧ s'.abort = s.abort
      | .checkFailed => s'.abort = some .checkReady
      | .forwarded => (s'.step cfg t).map (·.pc t) = some (.passing ((StageJob.connect job).forward soc))
      | .dropped | .purged => (s'.step cfg t).map (·.pc t) = some .outside := by
  let s₀ : Client.Sys Tid D := { s with registered := s.registered.eraseIdx i }
  have hfire : s.fire t i soc ready.told = if ready.err ≠ 0 then some s₀
      else if ready.out then some (s₀.goto t (.called (.connect job) soc)) else some (s₀.fail .checkReady) := by
    simp only [Client.Sys.fire, hpc, hreg]
    rfl
  rw [hfire]
  unfold connectCallback
  by_cases herr : ready.err = 0
  · rw [if_neg (not_not_intro herr), if_neg (not_not_intro herr)]
    cases hout : ready.out with
    | false => exact ⟨_, rfl, rfl⟩
    | true =>
      refine ⟨_, rfl, ?_⟩
      -- the next step makes the test of the `PurgeState` and of the socket
      have hstep : ((s₀.goto t (.called (.connect job) soc)).step cfg t).map (·.pc t) =
          some (if s.purged job.jobData.purgeState = false ∧ 0 ≤ soc then .passing ((StageJob.connect job).forward soc)
            else .outside) := by
        simp only [Client.Sys.step, Client.Sys.goto, Client.Sys.passOn, Function.update_self, StageJob.purgeState, s₀]
        by_cases hpass : s.purged job.jobData.purgeState = false ∧ 0 ≤ soc <;> simp [hpass]
      rw [hstep, if_neg (by simp)]
      by_cases hpass : s.purged job.jobData.purgeState = false ∧ 0 ≤ soc
      · rw [if_pos hpass, if_pos hpass]
      · rw [if_neg hpass, if_neg hpass]
        by_cases hneg : soc < 0 <;> simp only [hneg, if_true, if_false]
  · rw [if_pos herr, if_pos herr]
    exact ⟨s₀, rfl, hpc, rfl⟩

end Models

/-- `Connect2` leads to one call of `done` for every outcome. An answer that comes later says whether the connection was
    established, and both consumers act on it; one that comes at once has no flag and no error whatever it was, so that
    the check of the client fails and the proxy shuts down. -/
theorem connect_reports {o : Outcome} (h : o.Signalled) (soc : Int) : ∃ ready, o.calls soc = [⟨soc, ready⟩] ∧
    (o.deferred = true →
      ready.Reports o.established ∧
      (∀ isPurged, connectCallback isPurged soc ready ≠ .checkFailed ∧
        (connectCallback isPurged soc ready = .forwarded ↔ o.established = true ∧ isPurged = false ∧ 0 ≤ soc)) ∧
      ∀ r job, ∃ a, ProxyJobs.Work.act r (.connect job soc ready.told) = some a ∧
        (a.next = .monitorIn job ↔ o.established = true)) ∧
    (o.deferred = false →
      ¬ready.Reports o.established ∧
      (∀ isPurged, connectCallback isPurged soc ready = .checkFailed) ∧
      ∀ r job, ∃ a, ProxyJobs.Work.act r (.connect job soc ready.told) = some a ∧ a.next ≠ .monitorIn job) := by
  refine ⟨o.ready, o.calls_eq h soc, ?_, ?_⟩
  · intro hdeferred
    have hreports := o.reports h hdeferred
    refine ⟨hreports, fun isPurged => hreports.connectCallback isPurged soc, ?_⟩
    intro r job
    obtain ⟨a, hact, hnext⟩ := act_connect_iff r job soc o.ready
    exact ⟨a, hact, hnext.trans hreports.out_iff⟩
  · intro hdeferred
    rw [o.ready_of_not_deferred hdeferred]
    refine ⟨?_, fun isPurged => rfl, ?_⟩
    · rintro ⟨htrue, hfalse⟩
      cases he : o.established with
      | true => cases (htrue he).1
      | false => exact hfalse he rfl
    · intro r job
      obtain ⟨a, hact, hnext⟩ := act_connect_iff r job soc { inp := false, out := false }
      refine ⟨a, hact, fun hm => ?_⟩
      cases (hnext.mp hm).1

/-- `EPOLLOUT` without an error. -/
theorem connect_reports_later : (Outcome.inProgress 0 EPOLLOUT).Signalled ∧
    ∃ ready, (Outcome.inProgress 0 EPOLLOUT).calls 5 = [⟨5, ready⟩] ∧ connectCallback false 5 ready = .forwarded := by
  have h : (Outcome.inProgress 0 EPOLLOUT).Signalled := fun _ => by decide
  obtain ⟨ready, hcalls, hdeferred, -⟩ := connect_reports h 5
  exact ⟨h, ready, hcalls, ((hdeferred rfl).2.1 false).2.mpr ⟨rfl, rfl, by decide⟩⟩

/-- `connect` succeeds at once. -/
theorem connect_at_once : ∃ ready, Outcome.success.calls 5 = [⟨5, ready⟩] ∧ Outcome.success.established = true ∧
    ready.out = false ∧ connectCallback false 5 ready = .checkFailed := ⟨_, rfl, rfl, rfl, rfl⟩

/-! ### `Serve` -/

section Serving
variable {C : Type} {k : Kernel C} {done : List Int}

/-- There are descriptors for all pending connections, and one to spare if `accept4` reserves it first. -/
def Kernel.Suffices (k : Kernel C) : Prop :=
  k.backlog.length < k.descriptors.length ∨ k.backlog.length = k.descriptors.length ∧ k.reservesFirst = false

/-- The kernel when `n` connections have been accepted. -/
def Kernel.after (k : Kernel C) (n : Nat) : Kernel C :=
  { k with
    backlog := k.backlog.drop n
    descriptors := k.descriptors.drop n
    accepted := k.accepted ++ (k.backlog.zip k.descriptors).take n }

theorem Accepting.turn_accept {c : C} {soc : Int} {backlog : List C} {descriptors : List Int}
    (hback : k.backlog = c :: backlog) (hdesc : k.descriptors = soc :: descriptors) :
    (Accepting.mk k done).turn = .inl ⟨k.after 1, done ++ [soc]⟩ := by
  simp [turn, Kernel.accept4, Kernel.after, hback, hdesc]

theorem Accepting.turn_leave (hback : k.backlog = []) (h : k.Suffices) :
    (Accepting.mk k done).turn = .inr ⟨k, done⟩ := by
  cases hdesc : k.descriptors with
  | cons soc descriptors => simp [turn, Kernel.accept4, hback, hdesc]
  | nil =>
    have hfirst : k.reservesFirst = false := by simpa [Kernel.Suffices, hback, hdesc] using h
    simp [turn, Kernel.accept4, hback, hdesc, hfirst]

/-- Without a descriptor, `accept4` fails and leaves everything as it was. -/
theorem Accepting.turn_stuck (hdesc : k.descriptors = []) (h : ¬k.Suffices) :
    (Accepting.mk k done).turn = .inl ⟨k, done⟩ := by
  cases hback : k.backlog with
  | cons c backlog => simp [turn, Kernel.accept4, hback, hdesc, EMFILE, EAGAIN, EWOULDBLOCK]
  | nil =>
    have hfirst : k.reservesFirst = true := by simpa [Kernel.Suffices, hback, hdesc] using h
    simp [turn, Kernel.accept4, hback, hdesc, hfirst, EMFILE, EAGAIN, EWOULDBLOCK]

theorem Kernel.suffices_after {c : C} {soc : Int} {backlog : List C} {descriptors : List Int}
    (hback : k.backlog = c :: backlog) (hdesc : k.descriptors = soc :: descriptors) :
    (k.after 1).Suffices ↔ k.Suffices := by
  simp [Suffices, after, hback, hdesc]

theorem Kernel.after_after (k : Kernel C) (n : Nat) : (k.after 1).after n = k.after (n + 1) := by
  have hzip : (k.backlog.zip k.descriptors).take 1 ++ ((k.backlog.drop 1).zip (k.descriptors.drop 1)).take n =
      (k.backlog.zip k.descriptors).take (n + 1) := by
    rw [List.zip_eq_zipWith, List.zip_eq_zipWith, ← List.drop_zipWith, Nat.add_comm, List.take_add]
  simp only [after, List.drop_drop, List.append_assoc, Nat.add_comm 1 n, hzip]

/-- One `accept4` for each pending connection, and one that finds none. -/
theorem Accepting.run_suffices (backlog : List C) : ∀ {k : Kernel C} {done : List Int}, k.backlog = backlog → k.Suffices →
    Loop.run turn (backlog.length + 1) ⟨k, done⟩ =
      some ⟨k.after backlog.length, done ++ (backlog.zip k.descriptors).map Prod.snd⟩ := by
  induction backlog with
  | nil =>
    intro k done hback h
    rw [Loop.run_leave (turn_leave hback h)]
    simp [Kernel.after]
  | cons c backlog ih =>
    intro k done hback h
    cases hdesc : k.descriptors with
    | nil => simp [Kernel.Suffices, hback, hdesc] at h
    | cons soc descriptors =>
      have hrest := (Kernel.suffices_after hback hdesc).mpr h
      have hafter : (k.after 1).backlog = backlog ∧ (k.after 1).descriptors = descriptors := by
        simp [Kernel.after, hback, hdesc]
      rw [List.length_cons, Loop.run_succ (turn_accept hback hdesc), ih hafter.1 hrest, Kernel.after_after, hafter.2]
      simp

/-- The loop accepts as long as there are descriptors, and then never leaves. -/
theorem Accepting.run_exhausted (descriptors : List Int) : ∀ {k : Kernel C} {done : List Int},
    k.descriptors = descriptors → ¬k.Suffices → ∀ fuel, Loop.run turn fuel ⟨k, done⟩ = none := by
  induction descriptors with
  | nil =>
    intro k done hdesc h fuel
    refine Loop.run_eq_none (P := fun a => a = ⟨k, done⟩) ?_ fuel rfl
    rintro _ rfl
    exact ⟨_, turn_stuck hdesc h, rfl⟩
  | cons soc descriptors ih =>
    intro k done hdesc h
    cases hback : k.backlog with
    | nil => exact absurd (.inl (by simp [hback, hdesc])) h
    | cons c backlog =>
      have hafter : (k.after 1).descriptors = descriptors := by simp [Kernel.after, hdesc]
      exact Loop.run_none_of_step (turn_accept hback hdesc)
        (ih hafter fun hs => h ((Kernel.suffices_after hback hdesc).mp hs))

/-- `ServeSocketReady` returns, after one `accept4` for each pending connection and one more, where the descriptors
    suffice; it has then accepted the whole backlog and called `done` once for each connection, in order. Where they do
    not, it never returns. -/
theorem serveSocketReady_returns (k : Kernel C) (soc : Int) (events : UInt32) :
    (k.Suffices → ∃ r, serveSocketReady (k.backlog.length + 1) soc events k = some r ∧
      (events &&& EPOLLIN ≠ 0 → r.loop.kernel.backlog = [] ∧
        ∃ new, r.loop.kernel.accepted = k.accepted ++ new ∧ new.map Prod.fst = k.backlog ∧ r.loop.done = new.map Prod.snd)) ∧
    (¬k.Suffices → events &&& EPOLLIN ≠ 0 → ∀ fuel, serveSocketReady fuel soc events k = none) := by
  unfold serveSocketReady
  constructor
  · intro h
    by_cases hin : events &&& EPOLLIN = 0
    · rw [if_pos hin]
      exact ⟨_, rfl, fun hne => absurd hin hne⟩
    · rw [if_neg hin, Accepting.run_suffices k.backlog rfl h]
      have hle : k.backlog.length ≤ k.descriptors.length := by
        rcases h with hlt | ⟨heq, -⟩
        · exact Nat.le_of_lt hlt
        · exact Nat.le_of_eq heq
      refine ⟨_, rfl, fun _ => ⟨by simp [Kernel.after], k.backlog.zip k.descriptors, ?_, ?_, by simp⟩⟩
      · simp [Kernel.after, hle]
      · rw [List.map_fst_zip hle]
  · intro h hin fuel
    rw [if_neg hin, Accepting.run_exhausted k.descriptors rfl h, Option.map_none]

theorem serveSocketReady_returns_two : (Kernel.mk true ["a", "b"] [7, 8, 9] []).Suffices ∧
    ∃ r, serveSocketReady 3 3 EPOLLIN (Kernel.mk true ["a", "b"] [7, 8, 9] []) = some r ∧
      r.loop.kernel.accepted = [("a", 7), ("b", 8)] ∧ r.loop.done = [7, 8] := by
  have h : (Kernel.mk true ["a", "b"] [7, 8, 9] []).Suffices := .inl (by decide)
  obtain ⟨r, hr, -⟩ := (serveSocketReady_returns _ 3 EPOLLIN).1 h
  refine ⟨h, r, hr, ?_⟩
  cases hr
  exact ⟨rfl, rfl⟩

/-- A pending connection and no descriptor. -/
theorem serveSocketReady_spins :
    ¬∃ fuel, (serveSocketReady fuel 3 EPOLLIN (Kernel.mk false ["a"] [] [])).isSome = true := by
  rintro ⟨fuel, hreturns⟩
  have hrun : Loop.run Accepting.turn fuel ⟨Kernel.mk false ["a"] [] [], []⟩ = none :=
    Accepting.run_exhausted [] rfl (by simp [Kernel.Suffices]) fuel
  rw [serveSocketReady, if_neg (by decide), hrun] at hreturns
  cases hreturns

end Serving

/-! ### The loop in the model of the proxy -/

section Proxy
open ProxyJobs (Sys Label system Callback PipeJob)
variable {S W : Type} [Fintype S] [Fintype W] [DecidableEq S] [DecidableEq W]

/-- The calls of `done` in a call of `ServeSocketReady` are `ReceivedConnection`: each makes a job of its socket and puts
    it behind those in the queue. -/
theorem accepts_exec (socs : List Int) : ∀ {s : Sys S W} {cb : Callback} {priority : Priority}, s.fault = none →
    s.loop = .accepting cb priority → ∃ s', (system S W).execFrom s (socs.map .accept ++ [.accepted]) = some s' ∧
      s'.loop = .running cb ∧ s'.queue = s.queue ++ List.range' s.jobCount socs.length ∧
      s'.jobCount = s.jobCount + socs.length ∧ (∀ job < s.jobCount, s'.jobs job = s.jobs job) ∧
      ∀ i soc, socs[i]? = some soc → (s'.jobs (s.jobCount + i)).inp.soc = soc := by
  induction socs with
  | nil =>
    intro s cb priority hfault hloop
    refine ⟨{ s with loop := .running cb }, ?_, rfl, by simp, by simp, fun _ _ => rfl, by simp⟩
    simp [Lts.execFrom, system, Sys.next, hfault, Sys.accepted, hloop]
  | cons soc socs ih =>
    intro s cb priority hfault hloop
    let s₁ : Sys S W := { (s.setJob s.jobCount (.new priority soc (some s.heap.length))).register (.first s.jobCount) with
      queue := s.queue ++ [s.jobCount], jobCount := s.jobCount + 1 }
    have hnext : (system S W).next s (.accept soc) = some s₁ := by
      simp [system, Sys.next, hfault, Sys.accept, hloop, s₁]
    obtain ⟨s', hexec, hrunning, hqueue, hcount, hold, hsocs⟩ := @ih s₁ cb priority hfault hloop
    refine ⟨s', ?_, hrunning, ?_, ?_, ?_, ?_⟩
    · rw [List.map_cons, List.cons_append, Lts.execFrom, hnext]
      exact hexec
    · rw [hqueue, List.length_cons, List.range'_succ]
      simp [s₁]
    · rw [hcount, List.length_cons]
      simp only [s₁]
      omega
    · intro job hjob
      rw [hold job (Nat.lt_succ_of_lt hjob)]
      exact Function.update_of_ne (Nat.ne_of_lt hjob) _ _
    · intro i soc' hi
      cases i with
      | zero =>
        cases hi
        rw [Nat.add_zero, hold s.jobCount (Nat.lt_succ_self _)]
        simp [s₁, Sys.register, Sys.setJob, PipeJob.new, ProxyJobs.Connection.new]
      | succ i =>
        have hsoc := hsocs i soc' hi
        rwa [show s₁.jobCount + i = s.jobCount + (i + 1) by simp only [s₁]; omega] at hsoc

end Proxy

end Dans.CommunicationHandler
