import Mathlib.Data.List.Perm.Basic
import Dans.ProxyJobs

/-! What the steps of the proxy can do, case by case: the steps of a thread on its job, those of the reactor, and the uses
    of a deleted callback, which end the run. -/

namespace Dans.ProxyJobs
open Client (ReadyFor)

variable {S W κ : Type}

/-! ### Steps of a thread on its job -/

inductive Sched.Acts (n : Nat) (r : PipeJob) : Sched → Act Sched → Prop where
  | monitor {j : Nat} : Acts n r (.scheduled j) { next := .monitored j n, job := r, register := some (.cliClosed j) }
  | assign {j id : Nat} : Acts n r (.monitored j id) { next := .connecting j, job := { r with secondCb := some id } }
  | test {j : Nat} {c : Sched} (next : c = .deleting j ∨ c = .idle) : Acts n r (.testing j) { next := c, job := r }
  | delete {j : Nat} : Acts n r (.deleting j) { next := .clearing j, job := r, delete := r.firstCb }
  | clear {j : Nat} : Acts n r (.clearing j) { next := .idle, job := { r with firstCb := none } }

theorem Sched.acts_of_act {n : Nat} {r : PipeJob} {c : Sched} {a : Act Sched} (h : c.act n r = some a) : c.Acts n r a := by
  cases c with
  | idle | connecting _ => cases h
  | testing j =>
    cases h
    exact .test (ite_eq_or_eq _ _ _)
  | scheduled _ | monitored _ _ | deleting _ | clearing _ =>
    cases h
    constructor

inductive Work.Acts (r : PipeJob) : Work → Act Work → Prop where
  | connect {j : Nat} {soc : Int} {ready : ReadyFor} {c : Work}
      (next : c = .shutOther .connect j .server ∨ c = .monitorIn j) :
      Acts r (.connect j soc ready) { next := c, job := { r with out := some (.new soc) } }
  | monitorIn {j : Nat} : Acts r (.monitorIn j) { next := .monitorOut j, job := r, register := some (.monitor j .client) }
  | monitorOut {j : Nat} : Acts r (.monitorOut j)
      { next := .testing j, job := { r with established := true }, register := some (.monitor j .server) }
  | test {j : Nat} {c : Work} (next : c = .deleting j ∨ c = .idle) : Acts r (.testing j) { next := c, job := r }
  | delete {j : Nat} : Acts r (.deleting j) { next := .clearing j, job := r, delete := r.secondCb }
  | clear {j : Nat} : Acts r (.clearing j) { next := .idle, job := { r with secondCb := none } }
  | monitor {j : Nat} {side : Side} {ready : ReadyFor} {c : Work}
      (next : c = .shutOther .monitor j side ∨ c = .piping j side) : Acts r (.monitor j side ready) { next := c, job := r }
  | report {j : Nat} {side : Side} {n : Nat} :
      Acts r (.report j side n) { next := .adding j side n r.totalCompleted, job := r }
  | add {j : Nat} {side : Side} {n total : Nat} :
      Acts r (.adding j side n total) { next := .rearm j side, job := { r with totalCompleted := (total + n) % 2 ^ 32 } }
  | rearm {j : Nat} {side : Side} :
      Acts r (.rearm j side) { next := .returning j side, job := r, register := some (.monitor j side) }
  | leave {j : Nat} {side : Side} : Acts r (.returning j side) { next := .idle, job := r }
  | cliClosed {j : Nat} {ready : ReadyFor} {c : Work} (next : c = .shutOther .cliClosed j .client ∨ c = .idle) :
      Acts r (.cliClosed j ready) { next := c, job := r }
  | alone {caller : Caller} {j : Nat} {side : Side} (none : r.connection side.other = none) :
      Acts r (.shutOther caller j side) { next := .idle, job := r }
  | setShutdown {caller : Caller} {j : Nat} {side : Side} (some : r.connection side.other ≠ none) :
      Acts r (.shutOther caller j side) { next := .shutting caller j side, job := r.modify .setShutdown side }
  | shutdown {caller : Caller} {j : Nat} {side : Side} :
      Acts r (.shutting caller j side) { next := .idle, job := r.modify .issue side.other }

theorem Work.acts_of_act {r : PipeJob} {c : Work} {a : Act Work} (h : c.act r = some a) : c.Acts r a := by
  cases c with
  | idle | piping _ _ => cases h
  | connect j soc ready =>
    cases h
    exact .connect (ite_eq_or_eq _ _ _)
  | testing j =>
    cases h
    exact .test (ite_eq_or_eq _ _ _)
  | monitor j side ready =>
    cases h
    exact .monitor (ite_eq_or_eq _ _ _)
  | cliClosed j ready =>
    cases h
    exact .cliClosed (ite_eq_or_eq _ _ _)
  | shutOther caller j side =>
    simp only [Work.act] at h
    split at h
    · next hnone =>
      cases h
      exact .alone (Option.isNone_iff_eq_none.mp hnone)
    · next hsome =>
      cases h
      exact .setShutdown fun hnone => hsome (Option.isNone_iff_eq_none.mpr hnone)
  | monitorIn _ | monitorOut _ | deleting _ | clearing _ | report _ _ _ | adding _ _ _ _ | rearm _ _ | returning _ _
  | shutting _ _ _ =>
    cases h
    constructor

/-- Where `MonitorCallback` goes after `Pipe`. -/
theorem Work.piped_cases (j : Nat) (side : Side) (soc ret : Int) :
    Work.piped j side soc ret = .shutOther .monitor j side ∨ Work.piped j side soc ret = .idle ∨
      ∃ n, Work.piped j side soc ret = .report j side n := by
  unfold Work.piped
  split
  · split
    · exact Or.inl rfl
    · exact Or.inr (Or.inl rfl)
  · split
    · exact Or.inl rfl
    · exact Or.inr (Or.inr ⟨_, rfl⟩)

theorem field_update {α : Type} (f : PipeJob → α) {jobs : Nat → PipeJob} {j j' : Nat} {r : PipeJob}
    (hr : f r = f (jobs j')) :
    f (Function.update jobs j' r j) = f (jobs j) := by
  rw [Function.update_apply]
  split
  · next heq => rw [hr, heq]
  · rfl

/-! ### Steps of the system -/

variable [DecidableEq S] [DecidableEq W]

/-- The steps that use a deleted callback. -/
inductive Fails (s : Sys S W) : Label S W → Fault → Prop where
  | invoke {cb : Callback} {rest : List Callback} {inp out : Bool} {err : Int} (batch : s.batch = cb :: rest)
      (freed : s.freed cb.id = true) : Fails s (.invoke inp out err) (.invoked cb.id)
  | finish {cb : Callback} (loop : s.loop = .running cb) (freed : s.freed cb.id = true) :
      Fails s .finish (.deleted cb.id)
  | first {t : S} {j id : Nat} (sched : s.sched t = .deleting j) (firstCb : (s.jobs j).firstCb = some id)
      (freed : s.freed id = true) : Fails s (.schedule t) (.deleted id)
  | second {w : W} {j id : Nat} (work : s.work w = .deleting j) (secondCb : (s.jobs j).secondCb = some id)
      (freed : s.freed id = true) : Fails s (.work w) (.deleted id)

/-- The steps, case by case. -/
inductive Step [Fintype S] [Fintype W] (s : Sys S W) : Label S W → Sys S W → Prop where
  | fault {l : Label S W} {f : Fault} (fails : Fails s l f) : Step s l { s with fault := some f }
  | wait {sockets : List Socket} {cbs epoll : List Callback} (idle : s.loop = .between)
      (perm : (cbs ++ epoll).Perm s.epoll) : Step s (.wait sockets) { s with epoll := epoll, batch := s.batch ++ cbs }
  | serve {id : Nat} {p : Priority} {rest : List Callback} {inp out : Bool} {err : Int} (loop : s.loop = .between)
      (batch : s.batch = ⟨id, .serve p⟩ :: rest) (live : s.freed id = false) : Step s (.invoke inp out err)
        { s with
          batch := rest, loop := .accepting ⟨id, .serve p⟩ p, heap := s.heap ++ [.serve p]
          epoll := s.armed (some (.serve p)) }
  | closing {id : Nat} {p : Priority} {rest : List Callback} {inp out : Bool} {err : Int} (loop : s.loop = .between)
      (batch : s.batch = ⟨id, .serve p⟩ :: rest) (live : s.freed id = false) : Step s (.invoke inp out err)
        { s with batch := rest, loop := .running ⟨id, .serve p⟩ }
  | first {id j : Nat} {rest : List Callback} {inp out : Bool} {err : Int} (loop : s.loop = .between)
      (batch : s.batch = ⟨id, .first j⟩ :: rest) (live : s.freed id = false) : Step s (.invoke inp out err)
        { s with
          batch := rest, loop := .running ⟨id, .first j⟩, purges := s.purges ++ [j]
          jobs := Function.update s.jobs j { s.jobs j with firstCb := none } }
  | cliClosed {id j : Nat} {rest : List Callback} {inp out : Bool} {err : Int} {ready : ReadyFor} (loop : s.loop = .between)
      (batch : s.batch = ⟨id, .cliClosed j⟩ :: rest) (live : s.freed id = false) : Step s (.invoke inp out err)
        { s with
          batch := rest, loop := .running ⟨id, .cliClosed j⟩, tasks := s.tasks ++ [.cliClosedCallback j ready]
          jobs := Function.update s.jobs j { s.jobs j with secondCb := none } }
  | connected {id j : Nat} {soc : Int} {rest : List Callback} {inp out : Bool} {err : Int} {ready : ReadyFor}
      (loop : s.loop = .between) (batch : s.batch = ⟨id, .connect j soc⟩ :: rest) (live : s.freed id = false) :
      Step s (.invoke inp out err)
        { s with
          batch := rest, loop := .running ⟨id, .connect j soc⟩, tasks := s.tasks ++ [.connectCallback j soc ready] }
  | monitored {id j : Nat} {side : Side} {rest : List Callback} {inp out : Bool} {err : Int} {ready : ReadyFor}
      (loop : s.loop = .between) (batch : s.batch = ⟨id, .monitor j side⟩ :: rest) (live : s.freed id = false) :
      Step s (.invoke inp out err)
        { s with
          batch := rest, loop := .running ⟨id, .monitor j side⟩, tasks := s.tasks ++ [.monitorCallback j side ready] }
  | accept {cb : Callback} {p : Priority} {soc : Int} (loop : s.loop = .accepting cb p) : Step s (.accept soc)
        { s with
          heap := s.heap ++ [.first s.jobCount], epoll := s.armed (some (.first s.jobCount))
          queue := s.queue ++ [s.jobCount]
          jobs := Function.update s.jobs s.jobCount (.new p soc (some s.heap.length)), jobCount := s.jobCount + 1 }
  | accepted {cb : Callback} {p : Priority} (loop : s.loop = .accepting cb p) :
      Step s .accepted { s with loop := .running cb }
  | finish {cb : Callback} (loop : s.loop = .running cb) (live : s.freed cb.id = false) :
      Step s .finish { s with loop := .between, freed := Function.update s.freed cb.id true }
  | late {j : Nat} {rest : List Nat} (purges : s.purges = j :: rest) : Step s .purge { s with purges := rest }
  | purge {j : Nat} {rest : List Nat} (purges : s.purges = j :: rest) (mem : j ∈ s.queue) :
      Step s .purge { { s with purges := rest }.close j with queue := s.queue.erase j }
  | destroy {j : Nat} {primary secondary : List (Nat × Int)} (lt : j < s.jobCount) (queue : j ∉ s.queue)
      (fresh : (s.jobs j).destroyed = false) (dead : ¬s.Alive j)
      (stat : s.addStat j (s.jobs j) = { s with primarySizes := primary, secondarySizes := secondary }) :
      Step s (.destroy j) ({ s with primarySizes := primary, secondarySizes := secondary }.close j)
  | take {t : S} {j : Nat} (idle : s.sched t = .idle) (mem : j ∈ s.queue) : Step s (.take t j)
        { s with queue := s.queue.erase j, sched := Function.update s.sched t (.scheduled j) }
  | schedule {t : S} {j : Nat} {a : Act Sched} (job : (s.sched t).job = some j)
      (acts : (s.sched t).Acts s.heap.length (s.jobs j) a) (live : ∀ id, a.delete = some id → s.freed id = false) :
      Step s (.schedule t) { s.perform j a with sched := Function.update s.sched t a.next }
  | connect {t : S} {j : Nat} {soc : Int} (sched : s.sched t = .connecting j) : Step s (.connect t soc true)
        { s with
          heap := s.heap ++ [.connect j soc], epoll := s.armed (some (.connect j soc))
          sched := Function.update s.sched t (.testing j) }
  | connectNow {t : S} {j : Nat} {soc : Int} (sched : s.sched t = .connecting j) : Step s (.connect t soc false)
        { s with
          tasks := s.tasks ++ [.connectCallback j soc ⟨false, false, 0⟩]
          sched := Function.update s.sched t (.testing j) }
  | start {w : W} {task : Task} {rest : List Task} (idle : s.work w = .idle) (tasks : s.tasks = task :: rest) :
      Step s (.start w) { s with tasks := rest, work := Function.update s.work w task.start }
  | work {w : W} {j : Nat} {a : Act Work} (job : (s.work w).job = some j) (acts : (s.work w).Acts (s.jobs j) a)
      (live : ∀ id, a.delete = some id → s.freed id = false) :
      Step s (.work w) { s.perform j a with work := Function.update s.work w a.next }
  | pipe {w : W} {j : Nat} {side : Side} {reads : List TcpPipe.ReadResult} {sends : List TcpPipe.SendResult}
      {m : TcpPipe.Memory} {p : TcpPipe.Piped} (work : s.work w = .piping j side)
      (pipe : TcpPipe.pipe reads sends m = some p) :
      Step s (.pipe w reads sends m)
        { s with
          jobs := Function.update s.jobs j
            { s.jobs j with accepted := (s.jobs j).accepted + (TcpPipe.accepted p.calls).length }
          work := Function.update s.work w (.piped j side ((s.jobs j).soc side) p.ret) }
  | clearSizes : Step s .clearSizes { s with primarySizes := [], secondarySizes := [] }
  | report : Step s .report
        { s with primarySizes := [], secondarySizes := [], stats := s.stats ++ [⟨s.primarySizes, s.secondarySizes⟩] }

variable [Fintype S] [Fintype W] {s s' : Sys S W} {l : Label S W}

omit [DecidableEq S] [DecidableEq W] [Fintype S] [Fintype W] in
/-- `epoll_wait` moves callbacks from the registrations to the batch. -/
theorem fetches {sockets : List Socket} (h : sockets.foldlM Sys.fetch s = some s') :
    ∃ cbs epoll, (cbs ++ epoll).Perm s.epoll ∧ s' = { s with epoll := epoll, batch := s.batch ++ cbs } := by
  induction sockets generalizing s with
  | nil =>
    cases h
    exact ⟨[], _, .refl _, by simp⟩
  | cons socket sockets ih =>
    rw [List.foldlM_cons] at h
    obtain ⟨r, hr, h⟩ := Option.bind_eq_some_iff.mp h
    obtain ⟨cb, hcb, rfl⟩ := Option.map_eq_some_iff.mp hr
    obtain ⟨cbs, epoll, hperm, rfl⟩ := ih h
    refine ⟨cb :: cbs, epoll, ?_, by simp⟩
    exact (hperm.cons cb).trans (List.perm_cons_erase (List.mem_of_find?_eq_some hcb)).symm

theorem step_of_invoke {inp out : Bool} {err : Int} (h : s.invoke inp out err = some s') :
    Step s (.invoke inp out err) s' := by
  unfold Sys.invoke at h
  split at h
  · next cb rest hloop hbatch =>
    split at h
    · next hfreed =>
      cases h
      exact .fault (.invoke hbatch hfreed)
    · next hlive =>
      obtain ⟨id, closure⟩ := cb
      have hlive := (Bool.not_eq_true _).mp hlive
      cases closure with
      | serve p =>
        cases h
        dsimp only
        split
        · exact .serve hloop hbatch hlive
        · exact .closing hloop hbatch hlive
      | first j =>
        cases h
        exact .first hloop hbatch hlive
      | cliClosed j =>
        cases h
        exact .cliClosed hloop hbatch hlive
      | connect j soc =>
        cases h
        exact .connected hloop hbatch hlive
      | monitor j side =>
        cases h
        exact .monitored hloop hbatch hlive
  · cases h

omit [DecidableEq S] [DecidableEq W] [Fintype S] [Fintype W] in
/-- The pointer was not deleted before, or it was. -/
theorem deleting_cases (s s' : Sys S W) (id? : Option Nat) :
    ((∀ id, id? = some id → s.freed id = false) ∧ s.deleting id? s' = s') ∨
    ∃ id, id? = some id ∧ s.freed id = true ∧ s.deleting id? s' = { s with fault := some (.deleted id) } := by
  cases id? with
  | none => exact Or.inl ⟨fun id hid => (by cases hid), rfl⟩
  | some id =>
    cases hfreed : s.freed id with
    | true => exact Or.inr ⟨id, rfl, hfreed, if_pos hfreed⟩
    | false =>
      refine Or.inl ⟨fun id' hid => ?_, if_neg (by simp [hfreed])⟩
      cases hid
      exact hfreed

theorem step_of_schedule {t : S} (h : s.scheduling t (Sched.act s.heap.length) = some s') : Step s (.schedule t) s' := by
  unfold Sys.scheduling at h
  obtain ⟨j, hj, h⟩ := Option.bind_eq_some_iff.mp h
  obtain ⟨a, ha, h⟩ := Option.bind_eq_some_iff.mp h
  cases h
  have hacts := Sched.acts_of_act ha
  rcases deleting_cases s { s.perform j a with sched := Function.update s.sched t a.next } a.delete with
    ⟨hlive, heq⟩ | ⟨id, hdelete, hfreed, heq⟩
  · rw [heq]
    exact .schedule hj hacts hlive
  · rw [heq]
    generalize hc : s.sched t = c at hj hacts
    cases hacts with
    | delete =>
      cases hj
      exact .fault (.first hc hdelete hfreed)
    | _ => cases hdelete

theorem step_of_connect {t : S} {soc : Int} {inProgress : Bool}
    (h : s.scheduling t (fun r => Sched.connect r soc inProgress) = some s') : Step s (.connect t soc inProgress) s' := by
  unfold Sys.scheduling at h
  obtain ⟨j, hj, h⟩ := Option.bind_eq_some_iff.mp h
  obtain ⟨a, ha, h⟩ := Option.bind_eq_some_iff.mp h
  cases h
  generalize hc : s.sched t = c at hj ha
  cases c with
  | connecting j' =>
    cases hj
    cases ha
    cases inProgress with
    | true =>
      convert @Step.connect S W _ _ _ _ s t j soc hc using 1
      simp [Sys.perform, Sys.deleting]
    | false =>
      convert @Step.connectNow S W _ _ _ _ s t j soc hc using 1
      simp [Sys.perform, Sys.armed, Sys.deleting]
  | _ => cases ha

theorem step_of_work {w : W} (h : s.working w Work.act = some s') : Step s (.work w) s' := by
  unfold Sys.working at h
  obtain ⟨j, hj, h⟩ := Option.bind_eq_some_iff.mp h
  obtain ⟨a, ha, h⟩ := Option.bind_eq_some_iff.mp h
  cases h
  have hacts := Work.acts_of_act ha
  rcases deleting_cases s { s.perform j a with work := Function.update s.work w a.next } a.delete with
    ⟨hlive, heq⟩ | ⟨id, hdelete, hfreed, heq⟩
  · rw [heq]
    exact .work hj hacts hlive
  · rw [heq]
    generalize hc : s.work w = c at hj hacts
    cases hacts with
    | delete =>
      cases hj
      exact .fault (.second hc hdelete hfreed)
    | _ => cases hdelete

theorem step_of_pipe {w : W} {reads : List TcpPipe.ReadResult} {sends : List TcpPipe.SendResult} {m : TcpPipe.Memory}
    (h : s.working w (fun r => Work.pipe r reads sends m) = some s') : Step s (.pipe w reads sends m) s' := by
  unfold Sys.working at h
  obtain ⟨j, hj, h⟩ := Option.bind_eq_some_iff.mp h
  obtain ⟨a, ha, h⟩ := Option.bind_eq_some_iff.mp h
  cases h
  generalize hc : s.work w = c at hj ha
  cases c with
  | piping j' side =>
    cases hj
    obtain ⟨p, hp, rfl⟩ := Option.map_eq_some_iff.mp ha
    convert Step.pipe hc hp using 1
    simp [Sys.perform, Sys.armed, Sys.deleting]
  | _ => cases ha

theorem next_step (h : s.next l = some s') : s.fault = none ∧ Step s l s' := by
  unfold Sys.next at h
  split at h
  · cases h
  · next hnone =>
    refine ⟨by simpa using hnone, ?_⟩
    cases l with
    | wait sockets =>
      dsimp only [Sys.wait] at h
      split at h
      · next hidle =>
        obtain ⟨cbs, epoll, hperm, rfl⟩ := fetches h
        exact .wait hidle.1 hperm
      · cases h
    | invoke inp out err => exact step_of_invoke h
    | accept soc =>
      dsimp only [Sys.accept] at h
      split at h
      · next hloop =>
        cases h
        exact .accept hloop
      · cases h
    | accepted =>
      dsimp only [Sys.accepted] at h
      split at h
      · next hloop =>
        cases h
        exact .accepted hloop
      · cases h
    | finish =>
      dsimp only [Sys.finish] at h
      split at h
      · next cb hloop =>
        cases h
        rcases deleting_cases s { s with loop := .between, freed := Function.update s.freed cb.id true } (some cb.id) with
          ⟨hlive, heq⟩ | ⟨id, hid, hfreed, heq⟩
        · rw [heq]
          exact .finish hloop (hlive _ rfl)
        · cases hid
          rw [heq]
          exact .fault (.finish hloop hfreed)
      · cases h
    | purge =>
      dsimp only [Sys.purge] at h
      split at h
      · next j rest hpurges =>
        cases h
        split
        · next hmem => exact .purge hpurges hmem
        · exact .late hpurges
      · cases h
    | destroy j =>
      dsimp only [Sys.destroy] at h
      split at h
      · next hdead =>
        cases h
        obtain ⟨hlt, hqueue, hfresh, hdead⟩ := hdead
        obtain ⟨primary, secondary, hstat⟩ : ∃ primary secondary, s.addStat j (s.jobs j) =
            { s with primarySizes := primary, secondarySizes := secondary } := by
          unfold Sys.addStat
          split <;> exact ⟨_, _, rfl⟩
        rw [hstat]
        exact .destroy hlt hqueue hfresh hdead hstat
      · cases h
    | take t j =>
      dsimp only [Sys.take] at h
      split at h
      · next hidle =>
        cases h
        exact .take hidle.1 hidle.2
      · cases h
    | schedule t => exact step_of_schedule h
    | connect t soc inProgress => exact step_of_connect h
    | start w =>
      dsimp only [Sys.start] at h
      split at h
      · next hidle htasks =>
        cases h
        exact .start hidle htasks
      · cases h
    | work w => exact step_of_work h
    | pipe w reads sends m => exact step_of_pipe h
    | clearSizes =>
      cases h
      exact .clearSizes
    | report =>
      cases h
      exact .report

/-- Where a worker goes. -/
theorem Step.work_cases (hs : Step s l s') (w : W) : s'.work w = s.work w ∨
    (∃ task ∈ s.tasks, s.work w = .idle ∧ s'.work w = task.start) ∨
    (∃ j a, l = .work w ∧ (s.work w).job = some j ∧ (s.work w).Acts (s.jobs j) a ∧ s'.work w = a.next ∧ s'.jobs j = a.job ∧
      s'.epoll = s.armed a.register) ∨
    ∃ j side reads sends m p, l = .pipe w reads sends m ∧ s.work w = .piping j side ∧ TcpPipe.pipe reads sends m = some p ∧
      s'.work w = .piped j side ((s.jobs j).soc side) p.ret := by
  have hother : ∀ {w' : W} {c : Work}, w ≠ w' → Function.update s.work w' c w = s.work w :=
    fun hne => Function.update_of_ne hne _ _
  cases hs with
  | @start w' task rest idle tasks =>
    by_cases hww : w = w'
    · subst hww
      exact Or.inr (Or.inl ⟨task, tasks ▸ List.mem_cons_self, idle, by simp⟩)
    · exact Or.inl (hother hww)
  | @work w' j a job acts _ =>
    by_cases hww : w = w'
    · subst hww
      exact Or.inr (Or.inr (Or.inl ⟨j, a, rfl, job, acts, by simp, by simp [Sys.perform], rfl⟩))
    · exact Or.inl (hother hww)
  | @pipe w' j side reads sends m p work pipe =>
    by_cases hww : w = w'
    · subst hww
      exact Or.inr (Or.inr (Or.inr ⟨j, side, reads, sends, m, p, rfl, work, pipe, by simp⟩))
    · exact Or.inl (hother hww)
  | _ => exact Or.inl rfl

/-- The points that a worker comes to only by a step of the callback it runs. -/
def Work.inner : Work → Bool
  | monitorIn _ | monitorOut _ | testing _ | deleting _ | clearing _ | piping _ _ | adding _ _ _ _ | rearm _ _
  | returning _ _ | shutting _ _ _ => true
  | idle | connect _ _ _ | monitor _ _ _ | report _ _ _ | cliClosed _ _ | shutOther _ _ _ => false

theorem Step.work_inner (hs : Step s l s') {w : W} (h : (s'.work w).inner = true) : s'.work w = s.work w ∨
    ∃ j a, l = .work w ∧ (s.work w).job = some j ∧ (s.work w).Acts (s.jobs j) a ∧ s'.work w = a.next ∧ s'.jobs j = a.job ∧
      s'.epoll = s.armed a.register := by
  rcases hs.work_cases w with heq | ⟨task, -, -, heq⟩ | hacts | ⟨j, side, _, _, _, p, -, -, -, heq⟩
  · exact Or.inl heq
  · rw [heq] at h
    cases task <;> cases h
  · exact Or.inr hacts
  · rw [heq] at h
    rcases Work.piped_cases j side ((s.jobs j).soc side) p.ret with heq | heq | ⟨n, heq⟩ <;> rw [heq] at h <;> cases h

end Dans.ProxyJobs
