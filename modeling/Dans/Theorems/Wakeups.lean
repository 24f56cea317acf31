import Dans.Lib.Exclusion
import Dans.Theorems.Forwarding
import Dans.Theorems.JobLives

/-! Pipes that come to an end. A `MonitorCallback` re-arms its socket or shuts down the other one, except when `send` has
    failed; and two calls of `ShutdownOther` that overlap each keep the other from shutting anything down. Where neither
    happens, a pipe is watched at both ends or the end of it is under way. -/

namespace Dans.ProxyJobs
open Tally Exclusion

variable {S W : Type}

/-! ### Connections -/

/-- `shutdown` was called on one of the two sockets. -/
def PipeJob.Issued (r : PipeJob) : Prop := ∃ side c, r.connection side = some c ∧ c.issued = true

theorem Side.eq_or_other (side side' : Side) : side' = side ∨ side' = side.other := by
  cases side <;> cases side' <;> simp [Side.other]

@[simp] theorem connection_modify (r : PipeJob) (f : Connection → Connection) (side : Side) :
    (r.modify f side).connection side = (r.connection side).map f := by cases side <;> rfl

@[simp] theorem connection_modify_other (r : PipeJob) (f : Connection → Connection) (side : Side) :
    (r.modify f side).connection side.other = r.connection side.other := by cases side <;> rfl

theorem out_modify (r : PipeJob) (f : Connection → Connection) (side : Side) :
    (r.modify f side).out = none ↔ r.out = none := by cases side <;> simp [PipeJob.modify]

theorem Connection.issued_issue {c : Connection} (h : c.issued = true) : c.issue.issued = true := by
  unfold Connection.issue
  split
  · exact h
  · rfl

/-- No connection forgets that it was shut down. -/
theorem issued_modify {r : PipeJob} {f : Connection → Connection} {side : Side}
    (hf : ∀ c, c.issued = true → (f c).issued = true) (h : r.Issued) : (r.modify f side).Issued := by
  obtain ⟨side', c, hc, hissued⟩ := h
  rcases Side.eq_or_other side side' with rfl | rfl
  · exact ⟨side', f c, by rw [connection_modify, hc]; rfl, hf c hissued⟩
  · exact ⟨side.other, c, by rw [connection_modify_other, hc], hissued⟩

/-- What a step does to the connections of a job. -/
inductive Links (s : Sys S W) (j : Nat) (l : Label S W) (s' : Sys S W) : Prop where
  | same (h : ∀ side, (s'.jobs j).connection side = (s.jobs j).connection side)
  | accept (lt : s.jobCount ≤ j) (new : ∃ p soc id, s'.jobs j = .new p soc id)
  | connect {w : W} {soc : Int} {ready : Client.ReadyFor} (label : l = .work w) (work : s.work w = .connect j soc ready)
      (inp : (s'.jobs j).inp = (s.jobs j).inp) (out : (s'.jobs j).out = some (.new soc))
  | setShutdown {w : W} {caller : Caller} {side : Side} (label : l = .work w) (work : s.work w = .shutOther caller j side)
      (job : s'.jobs j = (s.jobs j).modify .setShutdown side) (next : s'.work w = .shutting caller j side)
  | issue {w : W} {caller : Caller} {side : Side} (label : l = .work w) (work : s.work w = .shutting caller j side)
      (job : s'.jobs j = (s.jobs j).modify .issue side.other)

section Steps
variable {s s' : Sys S W} {l : Label S W} {cb : Callback} {j id : Nat} {side : Side}

theorem mem_armed_self (c : Closure) : ⟨s.heap.length, c⟩ ∈ s.armed (some c) :=
  List.mem_append_right _ (List.mem_singleton_self _)

variable [Fintype S] [Fintype W] [DecidableEq S] [DecidableEq W]

theorem Step.links (hs : Step s l s') (j : Nat) : Links s j l s' := by
  have hsame : ∀ {j' : Nat} {r : PipeJob}, r.inp = (s.jobs j').inp → r.out = (s.jobs j').out →
      ∀ side, (Function.update s.jobs j' r j).connection side = (s.jobs j).connection side := by
    intro j' r hinp hout side
    cases side
    · exact field_update (fun r => some r.inp) (congrArg some hinp)
    · exact field_update (·.out) hout
  cases hs with
  | first _ _ _ | cliClosed _ _ _ | pipe _ _ => exact .same (hsame rfl rfl)
  | purge _ _ | destroy _ _ _ _ _ => exact .same (hsame rfl rfl)
  | @accept cb p soc _ =>
    by_cases heq : j = s.jobCount
    · exact .accept (Nat.le_of_eq heq.symm) ⟨p, soc, some s.heap.length, by simp [heq]⟩
    · exact .same fun side => by simp [heq]
  | @schedule t j' a _ acts _ =>
    generalize s.sched t = c at acts
    refine .same (hsame ?_ ?_) <;> cases acts <;> rfl
  | @work w j' a job acts _ =>
    by_cases heq : j = j'
    · subst heq
      generalize hc : s.work w = c at job acts
      cases acts with
      | connect next =>
        cases job
        exact .connect rfl hc (by simp [Sys.perform]) (by simp [Sys.perform])
      | setShutdown _ =>
        cases job
        exact .setShutdown rfl hc (by simp [Sys.perform]) (by simp)
      | shutdown =>
        cases job
        exact .issue rfl hc (by simp [Sys.perform])
      | monitorIn | monitorOut | test _ | delete | clear | monitor _ | report | add | rearm | leave | cliClosed _
      | alone _ => exact .same (hsame rfl rfl)
    · exact .same fun side => by simp [Sys.perform, heq]
  | _ => exact .same fun _ => rfl

theorem Step.established (hs : Step s l s') (h : (s'.jobs j).established = true) :
    (s.jobs j).established = true ∨
      ∃ w, s.work w = .monitorOut j ∧ ∃ cb ∈ s'.epoll, cb.closure = .monitor j .server := by
  have hkeep : ∀ {j' : Nat} {r : PipeJob}, (Function.update s.jobs j' r j).established = true →
      r.established = (s.jobs j').established → (s.jobs j).established = true :=
    fun h hr => (field_update (·.established) hr).symm.trans h
  cases hs with
  | first _ _ _ | cliClosed _ _ _ | pipe _ _ => exact Or.inl (hkeep h rfl)
  | purge _ _ | destroy _ _ _ _ _ => exact Or.inl (hkeep h rfl)
  | accept _ =>
    dsimp only at h
    rw [Function.update_apply] at h
    split at h
    · cases h
    · exact Or.inl h
  | @schedule t j' a _ acts _ =>
    refine Or.inl (hkeep h ?_)
    generalize s.sched t = c at acts
    cases acts <;> rfl
  | @work w j' a job acts _ =>
    generalize hc : s.work w = c at job acts
    cases acts with
    | monitorOut =>
      cases job
      by_cases heq : j = j'
      · subst heq
        exact Or.inr ⟨w, hc, _, mem_armed_self _, rfl⟩
      · simp only [Sys.perform, Function.update_of_ne heq] at h
        exact Or.inl h
    | @setShutdown _ _ side _ | @shutdown _ _ side => exact Or.inl (hkeep h (by cases side <;> rfl))
    | connect _ | monitorIn | test _ | delete | clear | monitor _ | report | add | rearm | leave | cliClosed _ | alone _ =>
      exact Or.inl (hkeep h rfl)
  | _ => exact Or.inl h

/-! ### The server's connection is made once -/

/-- What leads to the `ConnectCallback` of the job. -/
def Work.unconnected : Work → Option Nat
  | connect j _ _ => some j
  | _ => none

def Place.unconnected (j : Nat) : Place → Nat
  | work c => if c.unconnected = some j then 1 else 0
  | p => p.connects j

omit [Fintype S] [Fintype W] [DecidableEq S] [DecidableEq W] in
theorem unconnected_bounded (j : Nat) : Bounded (Place.unconnected j) fun _ k => if j < k then 1 else 0 := by
  intro n k n' k' old new hturn
  have hle := connects_bounded j hturn
  cases hturn with
  | fetch cbs => simp [Place.unconnected, Place.connects, Function.comp_def]
  | schedule acts => simpa [Place.unconnected, Function.comp_def] using hle
  | start task => cases task <;> simp [Place.unconnected, Place.connects, Task.awaits, Task.start, Work.unconnected]
  | work acts =>
    cases acts with
    | connect next | test next | monitor next | cliClosed next =>
      rcases next with rfl | rfl <;> simp [Place.unconnected, Work.unconnected]
    | monitorIn | monitorOut | rearm => simp [Place.unconnected, Place.connects, Work.unconnected, Closure.awaits]
    | delete | clear | report | add | leave | alone _ | setShutdown _ | shutdown =>
      simp [Place.unconnected, Work.unconnected]
  | pipe _ _ next => rcases next with rfl | rfl | ⟨units, rfl⟩ <;> simp [Place.unconnected, Work.unconnected]
  | stay | serve _ _ | quiet _ | cliClosed _ _ _ | connected _ _ _ _ | monitored _ _ _ _ | accept | finish _ | purge _
  | take _ | connect _ _ | connectNow _ _ _ => exact hle

/-- The step of `ConnectCallback` that makes the connection leaves no other to come. -/
theorem Step.connects_once {w : W} (hs : Step s (.work w) s') {soc : Int} {ready : Client.ReadyFor}
    (work : s.work w = .connect j soc ready) (out : (s'.jobs j).out ≠ (s.jobs j).out)
    (hone : s.weight (Place.unconnected j) ≤ 1) : s'.weight (Place.unconnected j) = 0 := by
  cases hs with
  | fault _ => exact absurd rfl out
  | @work _ j' a job acts _ =>
    have hwork := tally_update (fun c => Place.unconnected j (.work c)) s.work w a.next
    rw [work] at job acts hwork
    cases acts with
    | connect next =>
      rcases next with rfl | rfl <;>
        simp [Sys.weight, Sys.perform, Sys.armed, Place.unconnected, Work.unconnected] at hwork hone ⊢ <;> omega

variable {xs : List (Sys S W × Label S W)}

omit [DecidableEq S] [DecidableEq W] in
theorem unconnected_pos {w : W} {soc : Int} {ready : Client.ReadyFor} (work : s.work w = .connect j soc ready) :
    1 ≤ s.weight (Place.unconnected j) := by
  have hle := le_tally (fun c => Place.unconnected j (.work c)) s.work w
  have hone : Place.unconnected j (.work (s.work w)) = 1 := by
    rw [work]
    exact if_pos rfl
  rw [hone] at hle
  exact hle.trans (Nat.le_add_left _ _)

/-- As long as something leads to its `ConnectCallback`, a job has no connection to the server. -/
theorem unconnected_le (run : (system S W).Run xs s) : ∀ j,
    s.weight (Place.unconnected j) ≤ (if (s.jobs j).out = none ∧ j < s.jobCount then 1 else 0) ∧
      (s.jobCount ≤ j → (s.jobs j).out = none) := by
  refine run.always (P := fun s => ∀ j, s.weight (Place.unconnected j) ≤
    (if (s.jobs j).out = none ∧ j < s.jobCount then 1 else 0) ∧ (s.jobCount ≤ j → (s.jobs j).out = none)) ?_ ?_
  · intro j
    refine ⟨?_, fun _ => rfl⟩
    simp [Sys.weight, system, tally, Place.unconnected, Place.connects, Loop.running?, Sched.awaits, Closure.awaits,
      Work.unconnected]
  · intro xs s l s' run h hn j
    have hs := (next_step hn).2
    obtain ⟨hweight, hnone⟩ := h j
    obtain ⟨old, new, hturn, hle⟩ := hs.turn
    have hbound := unconnected_bounded j hturn
    have hle := hle (Place.unconnected j)
    have hcount := hs.jobCount_le
    have hkeep : ((s'.jobs j).out = none ↔ (s.jobs j).out = none) →
        s'.weight (Place.unconnected j) ≤ (if (s'.jobs j).out = none ∧ j < s'.jobCount then 1 else 0) ∧
          (s'.jobCount ≤ j → (s'.jobs j).out = none) := by
      intro hout
      simp only [hout]
      refine ⟨?_, fun hge => hnone (hcount.trans hge)⟩
      by_cases hlt : j < s.jobCount
      · have hlt' : j < s'.jobCount := Nat.lt_of_lt_of_le hlt hcount
        simp only [hlt, hlt', if_true, and_true] at hweight hbound ⊢
        omega
      · simp only [hlt, hnone (Nat.not_lt.mp hlt), and_false, if_false, true_and] at hweight hbound ⊢
        omega
    cases hs.links j with
    | same h => exact hkeep (by rw [show (s'.jobs j).out = (s.jobs j).out from h .server])
    | accept le new =>
      obtain ⟨p, soc, id, new⟩ := new
      exact hkeep (by simp [new, PipeJob.new, hnone le])
    | connect label work _ out =>
      have hpos := unconnected_pos work
      obtain ⟨hout, hlt⟩ : (s.jobs j).out = none ∧ j < s.jobCount := by
        by_contra hnot
        rw [if_neg hnot] at hweight
        omega
      rw [if_pos ⟨hout, hlt⟩] at hweight
      subst label
      rw [hs.connects_once work (by simp [out, hout]) hweight]
      exact ⟨Nat.zero_le _, fun hge => absurd (hcount.trans hge) (Nat.not_le.mpr hlt)⟩
    | setShutdown _ _ job _ | issue _ _ job => exact hkeep (by rw [job, out_modify])

/-- `ConnectCallback` starts without a connection to the server. -/
theorem out_none_of_connect (run : (system S W).Run xs s) {w : W} {soc : Int} {ready : Client.ReadyFor}
    (work : s.work w = .connect j soc ready) : (s.jobs j).out = none := by
  by_contra hsome
  have hle := (unconnected_le run j).1
  rw [if_neg fun h => hsome h.1] at hle
  have hpos := unconnected_pos work
  omega

/-! ### What leads to a `MonitorCallback` -/

/-- The `MonitorCallback` of the socket is to come, or runs and has not re-armed the socket yet. -/
def Sys.MonitorsAt (s : Sys S W) (j : Nat) (side : Side) : Prop :=
  (∃ cb ∈ s.epoll, cb.closure = .monitor j side) ∨ (∃ cb ∈ s.batch, cb.closure = .monitor j side) ∨
    (∃ task ∈ s.tasks, task.monitors = some (j, side)) ∨ ∃ w, (s.work w).monitors = some (j, side)

omit [Fintype S] [Fintype W] [DecidableEq S] [DecidableEq W] in
theorem Task.job_of_monitors {task : Task} (h : task.monitors = some (j, side)) : task.job = j := by
  cases task <;> cases h
  rfl

omit [Fintype S] [Fintype W] [DecidableEq S] [DecidableEq W] in
theorem Work.job_of_monitors {c : Work} (h : c.monitors = some (j, side)) : c.job = some j := by
  cases c with
  | shutOther caller _ _ | shutting caller _ _ =>
    cases caller <;> cases h
    rfl
  | _ => cases h <;> rfl

/-- A job whose `MonitorCallback` is to come has left the queue, and its scheduling thread has connected it. -/
theorem Sys.MonitorsAt.settled (run : (system S W).Run xs s) (h : s.MonitorsAt j side) :
    j ∉ s.queue ∧ ∀ t, (s.sched t).awaits ≠ some j := by
  have hcallback : ∀ {l : List Callback} {cb : Callback}, cb ∈ l → cb.closure = .monitor j side →
      0 < l.countP fun cb => cb.closure.monitors = some (j, side) := by
    intro l cb hcb hj
    exact List.countP_pos_iff.mpr ⟨cb, hcb, decide_eq_true (by rw [hj]; rfl)⟩
  have hpos : 0 < s.monitors Work.monitors j side := by
    rcases h with ⟨cb, hcb, hj⟩ | ⟨cb, hcb, hj⟩ | ⟨task, htask, hj⟩ | ⟨w, hw⟩
    · have hone := hcallback hcb hj
      simp only [Sys.monitors]
      omega
    · have hone := hcallback hcb hj
      simp only [Sys.monitors]
      omega
    · have hone : 0 < s.tasks.countP fun task => task.monitors = some (j, side) :=
        List.countP_pos_iff.mpr ⟨task, htask, decide_eq_true hj⟩
      simp only [Sys.monitors]
      omega
    · have hone : 0 < (Finset.univ.filter fun w => (s.work w).monitors = some (j, side)).card :=
        Finset.card_pos.mpr ⟨w, Finset.mem_filter.mpr ⟨Finset.mem_univ w, hw⟩⟩
      simp only [Sys.monitors]
      omega
  have hle := (monitors_le_weight s j side).trans (token_le_one run j side)
  refine ⟨fun hmem => ?_, fun t ht => ?_⟩
  · have hqueue := List.single_le_sum (fun _ _ => Nat.zero_le _) _
      (List.mem_map_of_mem (f := fun j' => Place.token j side (.queued j')) hmem)
    simp only [Place.token, if_true] at hqueue hle
    omega
  · have hsched := le_tally (fun c => Place.token j side (.sched c)) s.sched t
    simp only [Place.token, ht, if_true] at hsched hle
    omega

theorem Sys.MonitorsAt.reaches (run : (system S W).Run xs s) (h : s.MonitorsAt j side) : s.Reaches j := by
  have hholds : ∀ {cb : Callback}, cb.closure = .monitor j side → cb.closure.holds = some j := fun hj => by rw [hj]; rfl
  rcases h with ⟨cb, hcb, hj⟩ | ⟨cb, hcb, hj⟩ | ⟨task, htask, hj⟩ | ⟨w, hw⟩
  · exact Or.inr (Or.inr (Or.inl ⟨cb, Or.inl hcb, monitor_live run (Or.inl hcb) hj, hholds hj⟩))
  · exact Or.inr (Or.inr (Or.inl ⟨cb, Or.inr (Or.inl hcb), monitor_live run (Or.inr (Or.inl hcb)) hj, hholds hj⟩))
  · exact Or.inr (Or.inr (Or.inr (Or.inl ⟨task, htask, Task.job_of_monitors hj⟩)))
  · exact Or.inr (Or.inr (Or.inr (Or.inr ⟨w, Work.job_of_monitors hw⟩)))

omit [Fintype S] [Fintype W] [DecidableEq S] [DecidableEq W] in
theorem mem_armed_of_ne {c : Closure} (h : cb ∈ s.epoll) (hne : cb.closure.socket ≠ c.socket) : cb ∈ s.armed (some c) :=
  List.mem_append_left _ (List.mem_filter.mpr ⟨h, decide_eq_true hne⟩)

/-- A registration stays until its event is fetched. -/
theorem Step.armed_monitor (run : (system S W).Run xs s) (hs : Step s l s') (hcb : cb ∈ s.epoll)
    (hj : cb.closure = .monitor j side) : s'.MonitorsAt j side := by
  have hat : s.MonitorsAt j side := Or.inl ⟨cb, hcb, hj⟩
  obtain ⟨hqueue, hawaits⟩ := hat.settled run
  have hreaches := hat.reaches run
  have harmed : ∀ {c : Closure}, c.socket ≠ .pipe j side → cb ∈ s.armed (some c) :=
    fun hne => mem_armed_of_ne hcb fun heq => hne (by rw [← heq, hj]; rfl)
  -- A `Monitor` of the same socket is one for `MonitorCallback` as well.
  have hmonitor : ∀ {j' : Nat} {side' : Side}, ∃ cb ∈ s.armed (some (.monitor j' side')), cb.closure = .monitor j side := by
    intro j' side'
    by_cases heq : Closure.socket (.monitor j' side') = .pipe j side
    · cases heq
      exact ⟨_, mem_armed_self _, rfl⟩
    · exact ⟨cb, harmed heq, hj⟩
  have hclose : ∀ {j' : Nat}, j ≠ j' → cb ∈ s.epoll.filter fun cb =>
      cb.closure.socket ≠ .pipe j' .client ∧ cb.closure.socket ≠ .pipe j' .server := by
    intro j' hne
    exact List.mem_filter.mpr ⟨hcb, by simp [hj, Closure.socket, hne]⟩
  cases hs with
  | wait _ perm =>
    rcases List.mem_append.mp (perm.symm.subset hcb) with hmem | hmem
    · exact Or.inr (Or.inl ⟨cb, List.mem_append_right _ hmem, hj⟩)
    · exact Or.inl ⟨cb, hmem, hj⟩
  | serve _ _ _ => exact Or.inl ⟨cb, harmed (by simp [Closure.socket]), hj⟩
  | accept _ =>
    refine Or.inl ⟨cb, harmed fun heq => ?_, hj⟩
    cases heq
    exact Nat.lt_irrefl _ (lt_of_reaches run hreaches)
  | purge _ mem => exact Or.inl ⟨cb, hclose fun heq => hqueue (heq ▸ mem), hj⟩
  | destroy _ _ _ dead _ =>
    refine Or.inl ⟨cb, hclose fun heq => ?_, hj⟩
    subst heq
    exact not_reaches_of_dead (known_of_run run) hqueue dead hreaches
  | @schedule t j' a job acts _ =>
    generalize hc : s.sched t = c at job acts
    cases acts with
    | monitor =>
      refine Or.inl ⟨cb, harmed fun heq => ?_, hj⟩
      cases heq
      exact hawaits t (by rw [hc]; rfl)
    | assign | test _ | delete | clear => exact Or.inl ⟨cb, hcb, hj⟩
  | @connect t j' soc sched =>
    refine Or.inl ⟨cb, harmed fun heq => ?_, hj⟩
    cases heq
    exact hawaits t (by rw [sched]; rfl)
  | @work w j' a job acts _ =>
    generalize hc : s.work w = c at job acts
    cases acts with
    | monitorIn | monitorOut | rearm => exact Or.inl hmonitor
    | _ => exact Or.inl ⟨cb, hcb, hj⟩
  | _ => exact Or.inl ⟨cb, hcb, hj⟩

/-- An event that was fetched is handled: `MonitorCallbackWrapper` submits a `MonitorCallback`. -/
theorem Step.fetched_monitor (hs : Step s l s') (hcb : cb ∈ s.batch) (hj : cb.closure = .monitor j side) :
    s'.MonitorsAt j side := by
  have hrest : ∀ {id : Nat} {c : Closure} {rest : List Callback}, s.batch = ⟨id, c⟩ :: rest → c ≠ .monitor j side →
      cb ∈ rest := by
    intro id c rest batch hc
    rw [batch] at hcb
    rcases List.mem_cons.mp hcb with rfl | hmem
    · exact absurd hj hc
    · exact hmem
  cases hs with
  | wait _ _ => exact Or.inr (Or.inl ⟨cb, List.mem_append_left _ hcb, hj⟩)
  | serve _ batch _ | closing _ batch _ | first _ batch _ | cliClosed _ batch _ | connected _ batch _ =>
    exact Or.inr (Or.inl ⟨cb, hrest batch (by simp), hj⟩)
  | @monitored id j' side' rest _ _ _ ready _ batch _ =>
    by_cases heq : Closure.monitor j' side' = .monitor j side
    · cases heq
      exact Or.inr (Or.inr (Or.inl ⟨_, List.mem_append_right _ (List.mem_singleton_self _), rfl⟩))
    · exact Or.inr (Or.inl ⟨cb, hrest batch heq, hj⟩)
  | _ => exact Or.inr (Or.inl ⟨cb, hcb, hj⟩)

theorem Step.task_monitor (hs : Step s l s') {task : Task} (htask : task ∈ s.tasks) (hj : task.monitors = some (j, side)) :
    s'.MonitorsAt j side := by
  have hkeep : task ∈ s'.tasks → s'.MonitorsAt j side := fun htask => Or.inr (Or.inr (Or.inl ⟨task, htask, hj⟩))
  cases hs with
  | cliClosed _ _ _ | connected _ _ _ | monitored _ _ _ | schedule _ _ _ | connectNow _ | work _ _ _ =>
    exact hkeep (List.mem_append_left _ htask)
  | @start w task' rest idle tasks =>
    rw [tasks] at htask
    rcases List.mem_cons.mp htask with rfl | hmem
    · refine Or.inr (Or.inr (Or.inr ⟨w, ?_⟩))
      dsimp only
      rw [Function.update_self]
      cases task <;> exact hj
    · exact hkeep hmem
  | _ => exact hkeep htask

/-- How a `MonitorCallback` returns without re-arming its socket. -/
inductive Leaves (s : Sys S W) (j : Nat) (side : Side) (l : Label S W) (s' : Sys S W) : Prop where
  | alone (none : (s.jobs j).connection side.other = none)
  | shutdown {w : W} (work : s.work w = .shutting .monitor j side) (job : s'.jobs j = (s.jobs j).modify .issue side.other)
  | sendFail {w : W} {reads : List TcpPipe.ReadResult} {sends : List TcpPipe.SendResult} {m : TcpPipe.Memory}
      {p : TcpPipe.Piped}
      (label : l = .pipe w reads sends m) (work : s.work w = .piping j side) (pipe : TcpPipe.pipe reads sends m = some p)
      (idle : Work.piped j side ((s.jobs j).soc side) p.ret = .idle)

theorem Step.work_monitor (hs : Step s l s') {w : W} (hw : (s.work w).monitors = some (j, side)) :
    s'.MonitorsAt j side ∨ Leaves s j side l s' := by
  have hnext : (s'.work w).monitors = some (j, side) → s'.MonitorsAt j side ∨ Leaves s j side l s' :=
    fun h => Or.inl (Or.inr (Or.inr (Or.inr ⟨w, h⟩)))
  rcases hs.work_cases w with heq | ⟨task, -, hidle, -⟩ | ⟨j', a, -, job, acts, hwork, hjob, hepoll⟩ |
    ⟨j', side', reads, sends, m, p, label, work, pipe, hwork⟩
  · exact hnext (heq ▸ hw)
  · rw [hidle] at hw
    cases hw
  · generalize hc : s.work w = c at hw job acts
    cases acts with
    | monitor next =>
      cases hw
      rcases next with rfl | rfl <;> exact hnext (by rw [hwork]; rfl)
    | report | add =>
      cases hw
      exact hnext (by rw [hwork]; rfl)
    | rearm =>
      cases hw
      refine Or.inl (Or.inl ⟨⟨s.heap.length, .monitor j side⟩, ?_, rfl⟩)
      rw [hepoll]
      exact mem_armed_self _
    | @alone caller _ _ none =>
      cases caller <;> cases hw
      cases job
      exact Or.inr (.alone none)
    | @setShutdown caller _ _ _ =>
      cases caller <;> cases hw
      exact hnext (by rw [hwork]; rfl)
    | @shutdown caller _ _ =>
      cases caller <;> cases hw
      cases job
      exact Or.inr (.shutdown hc hjob)
    | connect _ | monitorIn | monitorOut | test _ | delete | clear | leave | cliClosed _ => cases hw
  · rw [work] at hw
    cases hw
    rcases Work.piped_cases j side ((s.jobs j).soc side) p.ret with heq | heq | ⟨n, heq⟩
    · exact hnext (by rw [hwork, heq]; rfl)
    · exact Or.inr (.sendFail label work pipe heq)
    · exact hnext (by rw [hwork, heq]; rfl)

theorem Step.monitorsAt (run : (system S W).Run xs s) (hs : Step s l s') (h : s.MonitorsAt j side) :
    s'.MonitorsAt j side ∨ Leaves s j side l s' := by
  rcases h with ⟨cb, hcb, hj⟩ | ⟨cb, hcb, hj⟩ | ⟨task, htask, hj⟩ | ⟨w, hw⟩
  · exact Or.inl (hs.armed_monitor run hcb hj)
  · exact Or.inl (hs.fetched_monitor hcb hj)
  · exact Or.inl (hs.task_monitor htask hj)
  · exact hs.work_monitor hw

/-! ### Runs in which the end of a pipe is seen -/

/-- The worker is between the two steps of `ShutdownOther`. -/
def Work.shuts : Work → Option Nat
  | shutting _ j _ => some j
  | _ => none

/-- No two calls of `ShutdownOther` for the job overlap, and no `send` for it fails, but at a socket whose number is the
    code of the failure. -/
def Sys.separate (s : Sys S W) (j : Nat) : Label S W → Bool
  | .work w =>
    match s.work w with
    | .shutOther _ j' _ => j' != j || decide (∀ w', (s.work w').shuts ≠ some j)
    | _ => true
  | .pipe w _ sends _ =>
    match s.work w with
    | .piping j' side =>
      j' != j || decide ((s.jobs j).soc side = TcpPipe.PipeResults.sendFail.value) || sends.all (!·.hard)
    | _ => true
  | _ => true

omit [Fintype S] [Fintype W] [DecidableEq S] [DecidableEq W] in
theorem Work.piped_idle {soc ret : Int} (h : Work.piped j side soc ret = .idle) :
    ret < 0 ∧ ret ≠ -TcpPipe.PipeResults.tryLater.value ∧ ret ≠ -soc := by
  unfold Work.piped at h
  split at h
  · next hneg =>
    split at h
    · cases h
    · next hsoc => exact ⟨hneg.1, hneg.2, hsoc⟩
  · split at h <;> cases h

omit [Fintype S] [Fintype W] [DecidableEq S] [DecidableEq W] in
/-- `MonitorCallback` goes on, or shuts down the other socket, unless `send` has failed. -/
theorem Work.piped_ne_idle {reads : List TcpPipe.ReadResult} {sends : List TcpPipe.SendResult} {m : TcpPipe.Memory}
    {p : TcpPipe.Piped} {soc : Int} (hp : TcpPipe.pipe reads sends m = some p)
    (hok : soc = TcpPipe.PipeResults.sendFail.value ∨ ∀ r ∈ sends, r.hard = false) :
    Work.piped j side soc p.ret ≠ .idle := by
  intro hidle
  obtain ⟨hneg, hlater, hsoc⟩ := Work.piped_idle hidle
  obtain ⟨ending, hpipes⟩ := TcpPipe.pipes_of_pipeLoop hp
  cases ending with
  | sendFail =>
    rcases hok with hok | hok
    · rw [hpipes.ret_sendFail, hok] at hsoc
      exact hsoc rfl
    · obtain ⟨r, hr, hhard⟩ := hpipes.hard
      rw [hok r hr] at hhard
      cases hhard
  | readFail | closed =>
    rw [hpipes.ret (by simp)] at hneg
    cases hneg
  | wouldBlock =>
    rw [hpipes.ret (by simp), TcpPipe.Ending.ret] at hneg hlater
    split at hneg
    · next hzero => exact hlater (if_pos hzero)
    · omega

/-- What the runs keep of a job: of its connections, of `ShutdownOther` between its two steps, and of the pipe. -/
structure Woken (s : Sys S W) (j : Nat) : Prop where
  out : ((s.jobs j).established = true ∨ ∃ w, s.work w = .monitorIn j ∨ s.work w = .monitorOut j) →
    (s.jobs j).out ≠ none
  one : One (fun c => c.shuts = some j) s.work
  other : ∀ w caller side, s.work w = .shutting caller j side → (s.jobs j).connection side.other ≠ none
  flag : ∀ side c, (s.jobs j).connection side = some c → c.shutdown = true →
    (s.jobs j).Issued ∨ ∃ w caller, s.work w = .shutting caller j side
  token : ∀ side, ((s.jobs j).established = true ∨ side = .client ∧ ∃ w, s.work w = .monitorOut j) →
    s.MonitorsAt j side ∨ (s.jobs j).Issued

theorem Links.connection_ne_none (run : (system S W).Run xs s) (h : Links s j l s') (side : Side)
    (hsome : (s.jobs j).connection side ≠ none) : (s'.jobs j).connection side ≠ none := by
  cases side with
  | client => simp [PipeJob.connection]
  | server =>
    cases h with
    | same h => rwa [h]
    | accept le _ => exact absurd ((unconnected_le run j).2 le) hsome
    | connect _ _ _ out => simp [PipeJob.connection, out]
    | setShutdown _ _ job _ | issue _ _ job =>
      rw [job]
      exact fun hnone => hsome ((out_modify _ _ _).mp hnone)

/-- `shutdown` was called once and for all. -/
theorem Links.issued (run : (system S W).Run xs s) (h : Links s j l s') (hissued : (s.jobs j).Issued) :
    (s'.jobs j).Issued ∨ ∃ p soc id, s'.jobs j = .new p soc id := by
  cases h with
  | same h =>
    obtain ⟨side, c, hc, hissued⟩ := hissued
    exact Or.inl ⟨side, c, (h side).trans hc, hissued⟩
  | accept _ new => exact Or.inr new
  | connect _ work inp _ =>
    obtain ⟨side, c, hc, hissued⟩ := hissued
    cases side with
    | client => exact Or.inl ⟨.client, c, by rw [← hc]; simp [PipeJob.connection, inp], hissued⟩
    | server =>
      rw [PipeJob.connection, out_none_of_connect run work] at hc
      cases hc
  | setShutdown _ _ job _ =>
    rw [job]
    exact Or.inl (issued_modify (fun _ h => h) hissued)
  | issue _ _ job =>
    rw [job]
    exact Or.inl (issued_modify (fun _ h => Connection.issued_issue h) hissued)

omit [Fintype S] [Fintype W] [DecidableEq S] [DecidableEq W] in
/-- The second step of `ShutdownOther` finds a connection that nobody else was about to shut down. -/
theorem Woken.issued_of_shutdown (h : Woken s j) {w : W} {caller : Caller} (work : s.work w = .shutting caller j side)
    (job : s'.jobs j = (s.jobs j).modify .issue side.other) : (s'.jobs j).Issued := by
  obtain ⟨c, hc⟩ := Option.ne_none_iff_exists'.mp (h.other w caller side work)
  rw [job]
  cases hflag : c.shutdown with
  | false => exact ⟨side.other, c.issue, by rw [connection_modify, hc]; rfl, by simp [Connection.issue, hflag]⟩
  | true =>
    rcases h.flag side.other c hc hflag with hissued | ⟨w', caller', work'⟩
    · exact issued_modify (fun _ h => Connection.issued_issue h) hissued
    · cases h.one w w' (by rw [work]; rfl) (by rw [work']; rfl)
      rw [work] at work'
      cases side <;> cases work'

theorem Step.shuts (hs : Step s l s') {w : W} (h : (s'.work w).shuts = some j) : (s.work w).shuts = some j ∨
    l = .work w ∧ ∃ caller side, s.work w = .shutOther caller j side := by
  have hinner : (s'.work w).inner = true := by
    generalize s'.work w = c at h
    cases c <;> cases h
    rfl
  rcases hs.work_inner hinner with heq | ⟨j', a, label, job, acts, heq, -, -⟩
  · exact Or.inl (heq ▸ h)
  · rw [heq] at h
    generalize hc : s.work w = c at job acts
    cases acts with
    | @setShutdown caller _ side _ =>
      cases h
      exact Or.inr ⟨label, caller, side, rfl⟩
    | connect next | test next | monitor next | cliClosed next => rcases next with rfl | rfl <;> cases h
    | monitorIn | monitorOut | delete | clear | report | add | rearm | leave | alone _ | shutdown => cases h

theorem Woken.one_step (h : Woken s j) (hok : s.separate j l = true) (hs : Step s l s') :
    One (fun c => c.shuts = some j) s'.work := by
  have hnone : ∀ {w : W}, l = .work w → (∃ caller side, s.work w = .shutOther caller j side) →
      ∀ w', (s.work w').shuts ≠ some j := by
    rintro w rfl ⟨caller, side, hw⟩
    simpa [Sys.separate, hw] using hok
  refine h.one.of_step (g := fun w => l = .work w) (fun w w' label label' => ?_) fun w hw => ?_
  · rw [label] at label'
    cases label'
    rfl
  · rcases hs.shuts hw with hw | ⟨label, hw⟩
    · exact Or.inl hw
    · exact Or.inr ⟨label, hnone label hw⟩

/-- A worker stays between the two steps of `ShutdownOther` until it has shut down the other connection. -/
theorem Step.shutting (hs : Step s l s') {w : W} {caller : Caller} (h : s.work w = .shutting caller j side) :
    s'.work w = .shutting caller j side ∨ s'.jobs j = (s.jobs j).modify .issue side.other := by
  rcases hs.work_cases w with heq | ⟨task, -, hidle, -⟩ | ⟨j', a, -, job, acts, -, hjob, -⟩ |
    ⟨j', side', _, _, _, p, -, hw, -⟩
  · exact Or.inl (heq.trans h)
  · rw [h] at hidle
    cases hidle
  · rw [h] at job acts
    cases job
    cases acts
    exact Or.inr hjob
  · rw [h] at hw
    cases hw

theorem Woken.flag_step (run : (system S W).Run xs s) (h : Woken s j) (hs : Step s l s') {c : Connection}
    (hc : (s'.jobs j).connection side = some c) (hflag : c.shutdown = true) :
    (s'.jobs j).Issued ∨ ∃ w caller, s'.work w = .shutting caller j side := by
  have hnew : ¬∃ p soc id, s'.jobs j = .new p soc id := by
    rintro ⟨p, soc, id, hnew⟩
    rw [hnew] at hc
    cases side <;> cases hc
    cases hflag
  have hkeep : (s.jobs j).connection side = some c →
      (s'.jobs j).Issued ∨ ∃ w caller, s'.work w = .shutting caller j side := by
    intro hc
    rcases h.flag side c hc hflag with hissued | ⟨w, caller, hw⟩
    · exact Or.inl (((hs.links j).issued run hissued).resolve_right hnew)
    · rcases hs.shutting hw with hw' | hjob
      · exact Or.inr ⟨w, caller, hw'⟩
      · exact Or.inl (h.issued_of_shutdown hw hjob)
  cases hs.links j with
  | same heq => exact hkeep ((heq side).symm.trans hc)
  | accept _ new => exact absurd new hnew
  | connect _ _ inp out =>
    cases side with
    | client => exact hkeep (by rw [← hc]; simp [PipeJob.connection, inp])
    | server =>
      rw [PipeJob.connection, out] at hc
      cases hc
      cases hflag
  | @setShutdown w caller side' _ _ job next =>
    rcases Side.eq_or_other side' side with rfl | rfl
    · exact Or.inr ⟨w, caller, next⟩
    · exact hkeep (by rw [← hc, job, connection_modify_other])
  | issue _ work job => exact Or.inl (h.issued_of_shutdown work job)

/-- `ConnectCallback` gives the client's socket to `Monitor` once it has the connection to the server. -/
theorem Step.monitoring (hs : Step s l s') {w : W} (h : s'.work w = .monitorIn j ∨ s'.work w = .monitorOut j) :
    s'.work w = s.work w ∨ (s'.jobs j).out ≠ none ∧ s'.work w = .monitorIn j ∨
      s.work w = .monitorIn j ∧ ∃ cb ∈ s'.epoll, cb.closure = .monitor j .client := by
  have hinner : (s'.work w).inner = true := by rcases h with h | h <;> rw [h] <;> rfl
  rcases hs.work_inner hinner with heq | ⟨j', a, label, job, acts, heq, hjob, hepoll⟩
  · exact Or.inl heq
  · rw [heq] at h
    generalize hc : s.work w = c at job acts
    cases acts with
    | connect next =>
      cases job
      rcases next with rfl | rfl <;> rcases h with h | h <;> cases h
      exact Or.inr (Or.inl ⟨by rw [hjob]; simp, heq⟩)
    | monitorIn =>
      cases job
      rcases h with h | h <;> cases h
      exact Or.inr (Or.inr ⟨rfl, ⟨s.heap.length, .monitor j .client⟩, by rw [hepoll]; exact mem_armed_self _, rfl⟩)
    | test next | monitor next | cliClosed next => rcases next with rfl | rfl <;> rcases h with h | h <;> cases h
    | monitorOut | delete | clear | report | add | rearm | leave | alone _ | setShutdown _ | shutdown =>
      rcases h with h | h <;> cases h

theorem Woken.out_step (run : (system S W).Run xs s) (h : Woken s j) (hs : Step s l s')
    (hj : (s'.jobs j).established = true ∨ ∃ w, s'.work w = .monitorIn j ∨ s'.work w = .monitorOut j) :
    (s'.jobs j).out ≠ none := by
  have hkeep : (s.jobs j).out ≠ none → (s'.jobs j).out ≠ none := (hs.links j).connection_ne_none run .server
  rcases hj with hj | ⟨w, hw⟩
  · rcases hs.established hj with hbefore | ⟨w, hw, -⟩
    · exact hkeep (h.out (Or.inl hbefore))
    · exact hkeep (h.out (Or.inr ⟨w, Or.inr hw⟩))
  · rcases hs.monitoring hw with heq | ⟨hout, -⟩ | ⟨hbefore, -⟩
    · exact hkeep (h.out (Or.inr ⟨w, heq ▸ hw⟩))
    · exact hout
    · exact hkeep (h.out (Or.inr ⟨w, Or.inl hbefore⟩))

theorem Woken.other_step (run : (system S W).Run xs s) (h : Woken s j) (hs : Step s l s') {w : W} {caller : Caller}
    (hw : s'.work w = .shutting caller j side) : (s'.jobs j).connection side.other ≠ none := by
  refine (hs.links j).connection_ne_none run _ ?_
  rcases hs.work_inner (by rw [hw]; rfl) with heq | ⟨j', a, label, job, acts, heq, -, -⟩
  · exact h.other w caller side (heq ▸ hw)
  · rw [heq] at hw
    generalize hc : s.work w = c at job acts
    cases acts with
    | setShutdown some =>
      cases job
      cases hw
      exact some
    | connect next | test next | monitor next | cliClosed next => rcases next with rfl | rfl <;> cases hw
    | monitorIn | monitorOut | delete | clear | report | add | rearm | leave | alone _ | shutdown => cases hw

/-- Of a pipe that is connected, what leads to the next `MonitorCallback` is not lost. -/
theorem Woken.watched (run : (system S W).Run xs s) (h : Woken s j) (hok : s.separate j l = true) (hs : Step s l s')
    (hout : (s.jobs j).out ≠ none) (hwatched : s.MonitorsAt j side ∨ (s.jobs j).Issued) :
    s'.MonitorsAt j side ∨ (s'.jobs j).Issued := by
  rcases hwatched with hat | hissued
  · rcases hs.monitorsAt run hat with hat' | hleaves
    · exact Or.inl hat'
    · cases hleaves with
      | alone none =>
        cases side with
        | client => exact absurd none hout
        | server => cases none
      | shutdown work job => exact Or.inr (h.issued_of_shutdown work job)
      | @sendFail w reads sends m p label work pipe idle =>
        subst label
        refine absurd idle (Work.piped_ne_idle pipe ?_)
        simpa [Sys.separate, work] using hok
  · rcases (hs.links j).issued run hissued with hissued | ⟨p, soc, id, hnew⟩
    · exact Or.inr hissued
    · exact absurd (show (s'.jobs j).out = none by rw [hnew]; rfl) ((hs.links j).connection_ne_none run .server hout)

theorem Woken.token_step (run : (system S W).Run xs s) (h : Woken s j) (hok : s.separate j l = true) (hs : Step s l s')
    (hj : (s'.jobs j).established = true ∨ side = .client ∧ ∃ w, s'.work w = .monitorOut j) :
    s'.MonitorsAt j side ∨ (s'.jobs j).Issued := by
  have hclient : ∀ {w : W}, s.work w = .monitorOut j → s'.MonitorsAt j .client ∨ (s'.jobs j).Issued := fun hw =>
    h.watched run hok hs (h.out (Or.inr ⟨_, Or.inr hw⟩)) (h.token .client (Or.inr ⟨rfl, _, hw⟩))
  rcases hj with hj | ⟨rfl, w, hw⟩
  · rcases hs.established hj with hbefore | ⟨w, hw, harmed⟩
    · exact h.watched run hok hs (h.out (Or.inl hbefore)) (h.token side (Or.inl hbefore))
    · cases side with
      | client => exact hclient hw
      | server => exact Or.inl (Or.inl harmed)
  · rcases hs.monitoring (Or.inr hw) with heq | ⟨-, hw'⟩ | ⟨-, harmed⟩
    · exact hclient (heq ▸ hw)
    · rw [hw] at hw'
      cases hw'
    · exact Or.inl (Or.inl harmed)

theorem woken_of_run (run : (system S W).Run xs s) (hok : Lts.Meets (fun s l => s.separate j l = true) xs) :
    Woken s j := by
  refine run.invariant (P := (Woken · j)) hok ?_ fun run h hok hn => ?_
  · refine ⟨fun hj => ?_, fun _ _ hw => (by cases hw), fun _ _ _ hw => (by cases hw), fun side c hc hflag => ?_,
      fun side hj => ?_⟩
    · rcases hj with hj | ⟨w, hw | hw⟩
      · cases hj
      · cases hw
      · cases hw
    · cases side <;> cases hc
      cases hflag
    · rcases hj with hj | ⟨-, w, hw⟩
      · cases hj
      · cases hw
  · have hs := (next_step hn).2
    exact ⟨fun hj => h.out_step run hs hj, h.one_step hok hs, fun _ _ _ hw => h.other_step run hs hw,
      fun _ _ hc hflag => h.flag_step run hs hc hflag, fun _ hj => h.token_step run hok hs hj⟩

/-- A `MonitorCallback` of the job runs, or its event or its task is there. -/
def Sys.Pending (s : Sys S W) (j : Nat) : Prop :=
  ∃ side, (∃ cb ∈ s.batch, cb.closure = .monitor j side) ∨ (∃ task ∈ s.tasks, task.monitors = some (j, side)) ∨
    ∃ w, (s.work w).runs = some (j, side)

/-- Nobody works on an established pipe, it is not watched at both of its ends, and neither end was shut down. -/
def Sys.HalfDead (s : Sys S W) (j : Nat) : Prop :=
  (s.jobs j).established = true ∧ s.Alive j ∧ ¬s.Pending j ∧ (∃ side, ∀ cb ∈ s.epoll, cb.closure ≠ .monitor j side) ∧
    ¬(s.jobs j).Issued

omit [Fintype S] [Fintype W] [DecidableEq S] [DecidableEq W] in
theorem Work.runs_of_monitors {c : Work} (h : c.monitors = some (j, side)) : c.runs = some (j, side) := by
  cases c with
  | returning _ _ => cases h
  | _ => exact h

/-- No pipe is left half dead where no `send` for it fails and no two calls of `ShutdownOther` for it overlap. -/
theorem never_halfDead (run : (system S W).Run xs s) (j : Nat) (hok : Lts.Meets (fun s l => s.separate j l = true) xs) :
    ¬s.HalfDead j := by
  rintro ⟨hestablished, -, hidle, ⟨side, hepoll⟩, hissued⟩
  rcases (woken_of_run run hok).token side (Or.inl hestablished) with
    (⟨cb, hcb, hj⟩ | ⟨cb, hcb, hj⟩ | ⟨task, htask, hj⟩ | ⟨w, hw⟩) | h
  · exact hepoll cb hcb hj
  · exact hidle ⟨side, Or.inl ⟨cb, hcb, hj⟩⟩
  · exact hidle ⟨side, Or.inr (Or.inl ⟨task, htask, hj⟩)⟩
  · exact hidle ⟨side, Or.inr (Or.inr ⟨w, Work.runs_of_monitors hw⟩)⟩
  · exact hissued h

end Steps

/-- The pipe is open and a byte has been forwarded. -/
theorem never_halfDead_forwarded : ∃ xs s, (system Unit Unit).Run xs s ∧
    Lts.Meets (fun s l => s.separate 0 l = true) xs ∧
    (s.jobs 0).established = true ∧ (s.jobs 0).accepted = 1 ∧ ¬s.HalfDead 0 := by
  obtain ⟨xs, s, run, -, hs⟩ := Lts.run_of_exec_any ((system Unit Unit).restrict fun s l => s.separate 0 l = true)
    (openPipe () () ++ readClient () ++ [.pipe () [.bytes [7], .error TcpPipe.EAGAIN] [.sent 1] fun _ => 0] ++
      List.replicate 4 (.work ()))
    (fun s => decide ((s.jobs 0).established = true ∧ (s.jobs 0).accepted = 1)) (by decide)
  obtain ⟨run, hok⟩ := run.of_restrict
  obtain ⟨hestablished, haccepted⟩ := of_decide_eq_true hs
  exact ⟨xs, s, run, hok, hestablished, haccepted, never_halfDead run 0 hok⟩

/-! ### Pipes that are left half dead -/

instance : Fintype Side := ⟨{.client, .server}, fun side => by cases side <;> decide⟩

instance (r : PipeJob) : Decidable r.Issued :=
  decidable_of_iff (∃ side, ∃ c ∈ r.connection side, c.issued = true) Iff.rfl

instance [Fintype W] (s : Sys S W) (j : Nat) : Decidable (s.Pending j) :=
  inferInstanceAs (Decidable (∃ side, (∃ cb ∈ s.batch, cb.closure = .monitor j side) ∨
    (∃ task ∈ s.tasks, task.monitors = some (j, side)) ∨ ∃ w, (s.work w).runs = some (j, side)))

instance [Fintype S] [Fintype W] (s : Sys S W) (j : Nat) : Decidable (s.HalfDead j) :=
  inferInstanceAs (Decidable ((s.jobs j).established = true ∧ s.Alive j ∧ ¬s.Pending j ∧
    (∃ side, ∀ cb ∈ s.epoll, cb.closure ≠ .monitor j side) ∧ ¬(s.jobs j).Issued))

/-- The server has closed its socket when a byte of the client is sent to it. -/
def failsToSend : List (Label Unit Unit) :=
  openPipe () () ++ readClient () ++ [.pipe () [.bytes [7]] [.error 32] fun _ => 0]

/-- The client closes before the connection is made, and the server when it is made: `CliClosedCallback` and
    `MonitorCallback` both call `ShutdownOther`. -/
def closesAtBothEnds : List (Label Unit Bool) :=
  [.wait [.listen 0], .invoke true false 0, .accept 5, .accepted, .finish, .take () 0, .schedule (), .schedule (),
    .wait [.pipe 0 .client], .invoke false false 0, .finish, .connect () 6 true, .wait [.pipe 0 .server],
    .invoke false true 0, .finish, .start false, .start true, .work true, .work true, .work true, .work true, .work false,
    .wait [.pipe 0 .server], .invoke false false 0, .finish, .start true, .work true] ++
    [.work false, .work true, .work false, .work true]

theorem left_halfDead :
    (∃ xs s, (system Unit Unit).Run xs s ∧ xs.map Prod.snd = failsToSend ∧ s.HalfDead 0) ∧
      ∃ xs s, (system Unit Bool).Run xs s ∧ xs.map Prod.snd = closesAtBothEnds ∧ s.HalfDead 0 := by
  constructor
  · obtain ⟨xs, s, run, hls, hs⟩ := Lts.run_of_exec_any (system Unit Unit) failsToSend
      (fun s => decide (s.HalfDead 0)) (by decide)
    exact ⟨xs, s, run, hls, of_decide_eq_true hs⟩
  · obtain ⟨xs, s, run, hls, hs⟩ := Lts.run_of_exec_any (system Unit Bool) closesAtBothEnds (fun s => decide (s.HalfDead 0))
      (by decide)
    exact ⟨xs, s, run, hls, of_decide_eq_true hs⟩

end Dans.ProxyJobs
