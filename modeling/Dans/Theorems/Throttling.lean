import Dans.ThrottlingProxy
import Dans.Theorems.Holders
import Dans.Theorems.Passages
import Dans.Theorems.Steady

/-! The throttler bounds the connections of the proxy. Its two halves agree on where every job is: the queue of the jobs is
    the `MultiQueue` behind the throttler, a job that somebody holds is one that the throttler counts or is about to count,
    and a job is given back before it is destroyed. -/

namespace Dans.ProxyJobs

variable {S W : Type}

/-- The step neither puts a job into the queue, nor takes it out, nor destroys it. -/
def Label.ordinary : Label S W → Bool
  | .accept _ | .purge | .destroy _ | .take _ _ => false
  | _ => true

theorem Sched.Acts.keeps {n : Nat} {r : PipeJob} {c : Sched} {a : Act Sched} (h : c.Acts n r a) :
    a.job.priority = r.priority ∧ a.job.destroyed = r.destroyed := by
  cases h <;> exact ⟨rfl, rfl⟩

theorem Work.Acts.keeps {r : PipeJob} {c : Work} {a : Act Work} (h : c.Acts r a) :
    a.job.priority = r.priority ∧ a.job.destroyed = r.destroyed := by
  cases h with
  | @setShutdown caller j side _ => cases side <;> exact ⟨rfl, rfl⟩
  | @shutdown caller j side => cases side <;> exact ⟨rfl, rfl⟩
  | _ => exact ⟨rfl, rfl⟩

variable [Fintype S] [Fintype W] [DecidableEq S] [DecidableEq W] {s s' : Sys S W} {l : Label S W}

/-- What an ordinary step leaves alone. -/
structure Ordinary (s s' : Sys S W) (l : Label S W) : Prop where
  queue : s'.queue = s.queue
  jobCount : s'.jobCount = s.jobCount
  priority : ∀ j, (s'.jobs j).priority = (s.jobs j).priority
  destroyed : ∀ j, (s'.jobs j).destroyed = (s.jobs j).destroyed
  sched : ∀ t, s'.sched t = s.sched t ∨ l = .schedule t ∨ ∃ soc b, l = .connect t soc b

theorem Step.ordinary (hs : Step s l s') (hl : l.ordinary = true) : Ordinary s s' l := by
  have same : ∀ {r : Sys S W}, r.queue = s.queue → r.jobCount = s.jobCount → r.jobs = s.jobs → r.sched = s.sched →
      Ordinary s r l := fun hqueue hcount hjobs hsched =>
    ⟨hqueue, hcount, fun j => by rw [hjobs], fun j => by rw [hjobs], fun t => Or.inl (by rw [hsched])⟩
  have update : ∀ {j' : Nat} {r' : PipeJob} {r : Sys S W}, r.queue = s.queue → r.jobCount = s.jobCount →
      r.jobs = Function.update s.jobs j' r' →
      r'.priority = (s.jobs j').priority ∧ r'.destroyed = (s.jobs j').destroyed →
      (∀ t, r.sched t = s.sched t ∨ l = .schedule t ∨ ∃ soc b, l = .connect t soc b) → Ordinary s r l :=
    fun hqueue hcount hjobs hkeeps hsched =>
      ⟨hqueue, hcount, fun j => by rw [hjobs]; exact field_update PipeJob.priority hkeeps.1,
        fun j => by rw [hjobs]; exact field_update PipeJob.destroyed hkeeps.2, hsched⟩
  have moved : ∀ (t : S) (c : Sched) (t' : S), Function.update s.sched t c t' = s.sched t' ∨ t = t' := fun t c t' => by
    by_cases heq : t' = t
    · exact Or.inr heq.symm
    · exact Or.inl (Function.update_of_ne heq _ _)
  cases hs with
  | accept _ | late _ | purge _ _ | destroy _ _ _ _ _ | take _ _ => cases hl
  | fault _ | wait _ _ | serve _ _ _ | closing _ _ _ | connected _ _ _ | monitored _ _ _ | accepted _ | finish _ _
  | start _ _ | clearSizes | report => exact same rfl rfl rfl rfl
  | first _ _ _ | cliClosed _ _ _ => exact update rfl rfl rfl ⟨rfl, rfl⟩ fun _ => Or.inl rfl
  | @schedule t j a _ acts _ =>
    exact update rfl rfl rfl acts.keeps fun t' => (moved t a.next t').imp_right fun heq => Or.inl (by rw [heq])
  | @connect t j soc _ =>
    exact ⟨rfl, rfl, fun _ => rfl, fun _ => rfl, fun t' =>
      (moved t (.testing j) t').imp_right fun heq => Or.inr ⟨soc, true, by rw [heq]⟩⟩
  | @connectNow t j soc _ =>
    exact ⟨rfl, rfl, fun _ => rfl, fun _ => rfl, fun t' =>
      (moved t (.testing j) t').imp_right fun heq => Or.inr ⟨soc, false, by rw [heq]⟩⟩
  | work _ acts _ => exact update rfl rfl rfl acts.keeps fun _ => Or.inl rfl
  | pipe _ _ => exact update rfl rfl rfl ⟨rfl, rfl⟩ fun _ => Or.inl rfl

end Dans.ProxyJobs

namespace Dans.Throttle

variable {Tid T : Type} [DecidableEq Tid] {s s' : Sys Tid T} {l : Label Tid T} {u : Tid} {p : Fin 2}

/-- A thread that waits for a job has called `Dequeue`. -/
theorem Effect.asks (he : Effect s l s') (h : (s'.pc u).asks = some p) : (s.pc u).asks = some p ∨ l = .dequeue u p := by
  have other : ∀ {t : Tid} {c : Pc T}, (c.asks = some p → (s.pc t).asks = some p ∨ l = .dequeue t p) →
      (Function.update s.pc t c u).asks = some p → (s.pc u).asks = some p ∨ l = .dequeue u p := by
    intro t c hc hu
    rw [Function.update_apply] at hu
    split at hu
    · next heq => exact heq ▸ hc hu
    · exact Or.inl hu
  cases he with
  | again _ _ | setThrottle _ | queueOp _ _ | fail => exact Or.inl h
  | @call t p' ret pc =>
    refine other (fun hc => Or.inr ?_) h
    cases hc
    rfl
  | block pc _ =>
    refine other (fun hc => Or.inl ?_) h
    rw [pc]
    exact hc
  | null _ _ | job _ _ | wrap _ _ | clear _ _ | enter _ _ | count _ | size _ | grant _ _ | keep _ _ | hold _ _
  | sendAway _ _ | low _ _ | complete _ _ _ => exact other (fun hc => by cases hc) h

variable [Fintype Tid]

/-- A step that is not about a job in the queue or a live one takes a job out of the queue, or leaves all where they are. -/
theorem Passes.settled (h : Passes s s' l) (hl : l.handles = false) :
    (∀ f, s'.waiting f = s.waiting f ∧ s'.outstanding f = s.outstanding f) ∧
      (∀ t p p' job, s.pc t = .queue p → s'.pc t ≠ .wrap p' job) ∨
    ∃ t p job, l = .step t ∧ s.pc t = .queue p ∧ s.q.jobs.Pops p job s'.q.jobs ∧ s'.live = s.live ∧
      s'.pc = Function.update s.pc t (.wrap p job) := by
  cases h with
  | stay _ jobs live pc =>
    refine Or.inl ⟨fun f => ⟨waiting_of_jobs jobs f, outstanding_of_stay live pc⟩, fun t p p' job ht hwrap => ?_⟩
    rcases pc with pc | ⟨u, c, pc, hnone⟩
    · rw [pc, ht] at hwrap
      cases hwrap
    · rw [pc, Function.update_apply] at hwrap
      split at hwrap
      · have hcarries := (hnone fun _ => true).2
        rw [hwrap] at hcarries
        cases hcarries
      · rw [ht] at hwrap
        cases hwrap
  | take pc pops live after => exact Or.inr ⟨_, _, _, rfl, pc, pops, live, after⟩
  | @make u p job tj d pc jobs own live after =>
    subst own
    refine Or.inl ⟨fun f => ⟨waiting_of_jobs jobs f, outstanding_of_make pc live after⟩, fun t p' q job' ht hwrap => ?_⟩
    rw [after, Function.update_apply] at hwrap
    split at hwrap
    · cases hwrap
    · rw [ht] at hwrap
      cases hwrap
  | complete _ _ _ _ _ | enqueue _ _ _ _ | purge _ _ _ => cases hl

end Dans.Throttle

namespace Dans.ThrottlingProxy
open Tally

variable {W : Type} [Fintype W] [DecidableEq W]

/-! ### Steps -/

/-- The steps of the proxy: of its jobs, of its throttler, or of both. -/
inductive Step (s : Sys W) : Label W → Sys W → Prop where
  | ordinary {l : ProxyJobs.Label (Fin 2) W} {jobs : ProxyJobs.Sys (Fin 2) W} (ordinary : l.ordinary = true)
      (next : s.jobs.next l = some jobs)
      (out : ∀ p, (l = .schedule p ∨ ∃ soc b, l = .connect p soc b) → outside (s.th.pc (.inl p)) = true) :
      Step s (.jobs l) { s with jobs := jobs }
  | accept {soc : Int} {jobs : ProxyJobs.Sys (Fin 2) W} {th : Throttle.Sys (Thread W) Nat}
      (next : s.jobs.next (.accept soc) = some jobs)
      (enqueue : s.th.next (.queueOp (.enqueue (dispatched jobs s.jobs.jobCount))) = some th) :
      Step s (.jobs (.accept soc)) { s with jobs := jobs, th := th }
  | purge {job : Nat} {rest : List Nat} {jobs : ProxyJobs.Sys (Fin 2) W} {th : Throttle.Sys (Thread W) Nat}
      (purges : s.jobs.purges = job :: rest) (next : s.jobs.next .purge = some jobs)
      (purge : s.th.next (.queueOp (.purge job)) = some th) : Step s (.jobs .purge) { s with jobs := jobs, th := th }
  | dequeue {p : Fin 2} {th : Throttle.Sys (Thread W) Nat} (idle : s.jobs.sched p = .idle)
      (next : s.th.next (.dequeue (.inl p) p) = some th) : Step s (.dequeue p) { s with th := th }
  | take {t : Thread W} {p p' : Fin 2} {job : Job Nat} {jobs : ProxyJobs.Sys (Fin 2) W} {th : Throttle.Sys (Thread W) Nat}
      (step : s.th.next (.step t) = some th) (pc : s.th.pc t = .queue p) (after : th.pc t = .wrap p' job)
      (next : s.jobs.next (.take p job.jobData) = some jobs) : Step s (.step t) { s with jobs := jobs, th := th }
  | step {t : Thread W} {th : Throttle.Sys (Thread W) Nat} (step : s.th.next (.step t) = some th)
      (other : ∀ p p' job, s.th.pc t = .queue p → th.pc t ≠ .wrap p' job) : Step s (.step t) { s with th := th }
  | complete {t : Thread W} {job : Nat} {tj : ThrottleJob Nat} {th : Throttle.Sys (Thread W) Nat} (idle : s.dying t = none)
      (released : s.Released job) (found : s.th.live.find? (·.job.jobData == job) = some tj)
      (next : s.th.next (.complete t tj.serial) = some th) :
      Step s (.complete t job) { s with th := th, dying := Function.update s.dying t (some job) }
  | destroy {t : Thread W} {job : Nat} {jobs : ProxyJobs.Sys (Fin 2) W} (dying : s.dying t = some job)
      (next : s.jobs.next (.destroy job) = some jobs) :
      Step s (.destroy t) { s with jobs := jobs, dying := Function.update s.dying t none }
  | setThrottle {p : Fin 2} {threshold : Int} {th : Throttle.Sys (Thread W) Nat}
      (next : s.th.next (.setThrottle p threshold) = some th) : Step s (.setThrottle p threshold) { s with th := th }

variable {s s' : Sys W} {jobs : ProxyJobs.Sys (Fin 2) W} {th : Throttle.Sys (Thread W) Nat}

theorem step_of_own {l : ProxyJobs.Label (Fin 2) W} (hn : s.own l = some s') : Step s (.jobs l) s' := by
  cases l with
  | accept soc =>
    obtain ⟨jobs, hjobs, hn⟩ := Option.bind_eq_some_iff.mp hn
    obtain ⟨th, hth, rfl⟩ := Option.map_eq_some_iff.mp hn
    exact .accept hjobs hth
  | purge =>
    dsimp only [Sys.own] at hn
    split at hn
    · cases hn
    · next job rest hpurges =>
      obtain ⟨jobs, hjobs, hn⟩ := Option.bind_eq_some_iff.mp hn
      obtain ⟨th, hth, rfl⟩ := Option.map_eq_some_iff.mp hn
      exact .purge hpurges hjobs hth
  | take _ _ | destroy _ => cases hn
  | schedule p =>
    dsimp only [Sys.own] at hn
    split at hn
    · next hout =>
      obtain ⟨jobs, hjobs, rfl⟩ := Option.map_eq_some_iff.mp hn
      refine .ordinary rfl hjobs ?_
      rintro p' (hl | ⟨soc, b, hl⟩) <;> cases hl
      exact hout
    · cases hn
  | connect p soc inProgress =>
    dsimp only [Sys.own] at hn
    split at hn
    · next hout =>
      obtain ⟨jobs, hjobs, rfl⟩ := Option.map_eq_some_iff.mp hn
      refine .ordinary rfl hjobs ?_
      rintro p' (hl | ⟨soc', b, hl⟩) <;> cases hl
      exact hout
    · cases hn
  | wait _ | invoke _ _ _ | accepted | finish | start _ | work _ | pipe _ _ _ _ | clearSizes | report =>
    obtain ⟨jobs, hjobs, rfl⟩ := Option.map_eq_some_iff.mp hn
    refine .ordinary rfl hjobs ?_
    rintro p' (hl | ⟨soc, b, hl⟩) <;> cases hl

theorem next_step {l : Label W} (hn : s.next l = some s') : s.th.abort = none ∧ Step s l s' := by
  unfold Sys.next at hn
  split at hn
  · cases hn
  · next hrunning =>
    refine ⟨by simpa using hrunning, ?_⟩
    cases l with
    | jobs l => exact step_of_own hn
    | dequeue p =>
      dsimp only at hn
      split at hn
      · next hidle =>
        obtain ⟨th, hth, rfl⟩ := Option.map_eq_some_iff.mp hn
        exact .dequeue hidle.1 hth
      · cases hn
    | step t =>
      obtain ⟨th, hth, hn⟩ := Option.bind_eq_some_iff.mp hn
      split at hn
      · next hpc hafter =>
        obtain ⟨jobs, hjobs, rfl⟩ := Option.map_eq_some_iff.mp hn
        exact .take hth hpc hafter hjobs
      · next hother =>
        cases hn
        exact .step hth hother
    | complete t job =>
      dsimp only [Sys.complete] at hn
      split at hn
      · next hfree =>
        obtain ⟨tj, hfound, hn⟩ := Option.bind_eq_some_iff.mp hn
        obtain ⟨th, hth, rfl⟩ := Option.map_eq_some_iff.mp hn
        exact .complete hfree.1 hfree.2 hfound hth
      · cases hn
    | destroy t =>
      dsimp only [Sys.destroy] at hn
      split at hn
      · cases hn
      · next job hdying =>
        split at hn
        · obtain ⟨jobs, hjobs, rfl⟩ := Option.map_eq_some_iff.mp hn
          exact .destroy hdying hjobs
        · cases hn
    | setThrottle p threshold =>
      obtain ⟨th, hth, rfl⟩ := Option.map_eq_some_iff.mp hn
      exact .setThrottle hth

/-! ### Agreement -/

/-- The job of the queue is this one. -/
def is (j : Nat) (job : Job Nat) : Bool := job.jobData == j

/-- The destructor of the job runs. -/
def ends (j : Nat) (dying : Option Nat) : Nat := if dying = some j then 1 else 0

/-- Whether the job was accepted. -/
def accepted (jobCount j : Nat) : Nat := if j < jobCount then 1 else 0

/-- Both halves know the same jobs, and every job is in one place: in the queue, out of it, in its destructor, or
    destroyed. -/
structure Agrees (s : Sys W) : Prop where
  sound : s.th.Sound
  serials : Throttle.Serials s.th
  made : ∀ job, s.th.Has job → job = dispatched s.jobs job.jobData
  asks : ∀ t p, (s.th.pc t).asks = some p → t = .inl p ∧ s.jobs.sched p = .idle
  queued : ∀ j, s.jobs.queue.count j = s.th.waiting (is j)
  placed : ∀ j, s.th.waiting (is j) + s.th.outstanding (is j) + tally (ends j) s.dying +
    (s.jobs.jobs j).destroyed.toNat = accepted s.jobs.jobCount j

omit [DecidableEq W] in
theorem Agrees.lt_of_has (h : Agrees s) {job : Job Nat} (hjob : s.th.Has job) : job.jobData < s.jobs.jobCount := by
  have hpos := hjob.counted h.sound (f := is job.jobData) (beq_self_eq_true _)
  have hplaced := h.placed job.jobData
  by_contra hlt
  rw [accepted, if_neg hlt] at hplaced
  omega

omit [DecidableEq W] in
/-- A job that is in the queue is nowhere else. -/
theorem Agrees.alone (h : Agrees s) {j : Nat} (hpos : 0 < s.th.waiting (is j)) : s.th.waiting (is j) = 1 ∧
    s.th.outstanding (is j) = 0 ∧ tally (ends j) s.dying = 0 ∧ (s.jobs.jobs j).destroyed = false ∧ j < s.jobs.jobCount := by
  have hplaced := h.placed j
  by_cases hlt : j < s.jobs.jobCount
  · rw [accepted, if_pos hlt] at hplaced
    refine ⟨by omega, by omega, by omega, ?_, hlt⟩
    exact Bool.toNat_eq_zero.mp (by omega)
  · rw [accepted, if_neg hlt] at hplaced
    omega

omit [Fintype W] [DecidableEq W] in
theorem dispatched_congr {j : Nat} (h : (jobs.jobs j).priority = (s.jobs.jobs j).priority) :
    dispatched s.jobs j = dispatched jobs j := by
  rw [dispatched, dispatched, h]

/-! ### Steps of one half -/

omit [DecidableEq W] in
theorem Agrees.ordinary (h : Agrees s) {l : ProxyJobs.Label (Fin 2) W} (hs : ProxyJobs.Ordinary s.jobs jobs l)
    (hout : ∀ p, (l = .schedule p ∨ ∃ soc b, l = .connect p soc b) → (s.th.pc (.inl p)).asks = none) :
    Agrees { s with jobs := jobs } where
  sound := h.sound
  serials := h.serials
  made job hjob := (h.made job hjob).trans (dispatched_congr (hs.priority _))
  asks t p ht := by
    obtain ⟨rfl, hidle⟩ := h.asks t p ht
    refine ⟨rfl, ?_⟩
    rcases hs.sched p with hsame | hown
    · exact hsame.trans hidle
    · have hnone := hout p hown
      rw [show (s.th.pc (.inl p)).asks = some p from ht] at hnone
      cases hnone
  queued j := by
    rw [show jobs.queue = s.jobs.queue from hs.queue]
    exact h.queued j
  placed j := by
    rw [hs.destroyed j, hs.jobCount]
    exact h.placed j

theorem Agrees.throttler (h : Agrees s) {l : Throttle.Label (Thread W) Nat} (he : Throttle.Effect s.th l th)
    (hcounts : ∀ f, th.waiting f = s.th.waiting f ∧ th.outstanding f = s.th.outstanding f)
    (hl : l.handles = false) (hcall : ∀ t p, l = .dequeue t p → t = .inl p ∧ s.jobs.sched p = .idle) :
    Agrees { s with th := th } := by
  obtain ⟨sound, hpasses⟩ := he.passes h.sound
  refine ⟨sound, h.serials.effect he, fun job hjob => ?_, fun t p ht => ?_, fun j => ?_, fun j => ?_⟩
  · rcases hpasses.has hjob with hjob | rfl
    · exact h.made job hjob
    · cases hl
  · rcases he.asks ht with hasks | hdequeue
    · exact h.asks t p hasks
    · exact hcall t p hdequeue
  · exact (h.queued j).trans (hcounts _).1.symm
  · dsimp only
    rw [(hcounts _).1, (hcounts _).2]
    exact h.placed j

/-! ### Steps of both -/

/-- A job comes out of the queue, and the scheduling thread of its priority has it. -/
theorem Agrees.take (h : Agrees s) {t : Thread W} {p : Fin 2} {job : Job Nat} (he : Throttle.Effect s.th (.step t) th)
    (hpc : s.th.pc t = .queue p) (hpops : s.th.q.jobs.Pops p job th.q.jobs) (hlive : th.live = s.th.live)
    (hafter : th.pc = Function.update s.th.pc t (.wrap p job)) (hn : s.jobs.next (.take p job.jobData) = some jobs) :
    Agrees { s with jobs := jobs, th := th } := by
  obtain ⟨sound, hpasses⟩ := he.passes h.sound
  have howns : t = .inl p := (h.asks t p (by rw [hpc]; rfl)).1
  have hwaiting : ∀ f, s.th.waiting f = th.waiting f + if f job then 1 else 0 := fun f =>
    Fifo.count_pops hpops (Finset.mem_range.mpr p.isLt)
  have hout : ∀ f, th.outstanding f = s.th.outstanding f + if f job then 1 else 0 := fun f =>
    Throttle.outstanding_of_take hpc hlive hafter
  cases (ProxyJobs.next_step hn).2 with
  | fault fails => cases fails
  | take idle mem =>
    refine ⟨sound, h.serials.effect he, fun job' hjob => ?_, fun u p' hu => ?_, fun j => ?_, fun j => ?_⟩
    · rcases hpasses.has hjob with hjob | hl
      · exact h.made job' hjob
      · cases hl
    · rcases he.asks hu with hasks | hl
      · obtain ⟨rfl, hidle⟩ := h.asks u p' hasks
        refine ⟨rfl, ?_⟩
        have hne : p' ≠ p := by
          rintro rfl
          rw [show th.pc (.inl p') = .wrap p' job by rw [hafter, howns, Function.update_self]] at hu
          cases hu
        exact (Function.update_of_ne hne _ _).trans hidle
      · cases hl
    · have hqueued := h.queued j
      rw [hwaiting] at hqueued
      dsimp only
      by_cases hj : j = job.jobData
      · subst hj
        rw [List.count_erase_self]
        simp only [is, beq_self_eq_true, if_true] at hqueued
        exact Nat.sub_eq_of_eq_add hqueued
      · rw [List.count_erase_of_ne hj, hqueued]
        simp [is, Ne.symm hj]
    · have hplaced := h.placed j
      rw [hwaiting] at hplaced
      dsimp only
      rw [hout]
      omega

/-- `ReceivedConnection` puts a new job into the queue. -/
theorem Agrees.accept (h : Agrees s) {soc : Int} (hn : s.jobs.next (.accept soc) = some jobs)
    (he : Throttle.Effect s.th (.queueOp (.enqueue (dispatched jobs s.jobs.jobCount))) th) (habort : th.abort = none) :
    Agrees { s with jobs := jobs, th := th } := by
  obtain ⟨sound, hpasses⟩ := he.passes h.sound
  cases (ProxyJobs.next_step hn).2 with
  | fault fails => cases fails
  | @accept cb p _ loop =>
    cases hpasses with
    | stay why _ _ _ =>
      rcases why with hl | hstop
      · cases hl
      · rw [habort] at hstop
        cases hstop
    | enqueue le hjobs hlive hpc =>
      generalize hnew : Dans.ThrottlingProxy.dispatched _ s.jobs.jobCount = new at le hjobs he
      have hdata : new.jobData = s.jobs.jobCount := by rw [← hnew]; rfl
      have hwaiting : ∀ f, th.waiting f = s.th.waiting f + if f new then 1 else 0 := fun f => by
        rw [Throttle.Sys.waiting, hjobs]
        exact Fifo.count_push (Finset.mem_range.mpr (Nat.lt_succ_of_le (h.sound.2 ▸ le)))
      have hout := Throttle.outstanding_of_same hpc hlive
      have hold : ∀ j, j < s.jobs.jobCount → j ≠ s.jobs.jobCount := fun j hj => Nat.ne_of_lt hj
      refine ⟨sound, h.serials.effect he, fun job hjob => ?_, fun t p' ht => ?_, fun j => ?_, fun j => ?_⟩
      · rcases (he.passes h.sound).2.has hjob with hjob | hl
        · refine (h.made job hjob).trans (dispatched_congr ?_)
          dsimp only
          rw [Function.update_of_ne (hold _ (h.lt_of_has hjob))]
        · cases hl
          rw [hdata]
          exact hnew.symm
      · rcases he.asks ht with hasks | hl
        · exact h.asks t p' hasks
        · cases hl
      · dsimp only
        rw [List.count_append, hwaiting, h.queued j, List.count_singleton, is, hdata]
      · have hplaced := h.placed j
        dsimp only
        rw [hwaiting, hout]
        by_cases hj : j = s.jobs.jobCount
        · have hnew : is j new = true := beq_iff_eq.mpr (hdata.trans hj.symm)
          rw [hj, accepted, if_neg (Nat.lt_irrefl _)] at hplaced
          rw [hnew, if_pos rfl, hj, Function.update_self, accepted, if_pos (Nat.lt_succ_self _)]
          simp only [ProxyJobs.PipeJob.new, Bool.toNat_false]
          omega
        · have hother : is j new = false := beq_eq_false_iff_ne.mpr fun heq => hj (heq.symm.trans hdata)
          have hsame : accepted (s.jobs.jobCount + 1) j = accepted s.jobs.jobCount j := by
            unfold accepted
            split <;> split <;> omega
          rw [hother, if_neg Bool.false_ne_true, Nat.add_zero, Function.update_of_ne hj, hsame]
          exact hplaced

omit [DecidableEq W] in
/-- The jobs in the queue have their numbers as ids. -/
theorem Agrees.id_eq (h : Agrees s) {p : Priority} {job : Job Nat} (hjob : job ∈ s.th.q.jobs p) :
    job.jobId = job.jobData := congrArg Job.jobId (h.made job (Or.inl ⟨p, hjob⟩))

omit [DecidableEq W] in
/-- `Purge` takes the job with this number out of the queue, and no other. -/
theorem Agrees.waiting_purge (h : Agrees s) {id : JobId} (hjobs : th.q.jobs = s.th.q.jobs.drop (·.jobId == id)) (j : Nat) :
    th.waiting (is j) = if j = id then 0 else s.th.waiting (is j) := by
  rw [Throttle.Sys.waiting, hjobs]
  split
  · next hj =>
    refine Fifo.count_of_none fun p job hjob => ?_
    obtain ⟨hmem, hid⟩ := List.mem_filter.mp hjob
    simpa [is, hj, h.id_eq hmem] using hid
  · next hj =>
    refine Fifo.count_drop fun p job hjob hdata => ?_
    rw [h.id_eq hjob, beq_iff_eq.mp hdata]
    exact beq_eq_false_iff_ne.mpr hj

/-- Both halves purge the same job. -/
theorem Agrees.purge (h : Agrees s) {id : Nat} {rest : List Nat} (hpurges : s.jobs.purges = id :: rest)
    (hn : s.jobs.next .purge = some jobs) (he : Throttle.Effect s.th (.queueOp (.purge id)) th) (habort : th.abort = none) :
    Agrees { s with jobs := jobs, th := th } := by
  obtain ⟨sound, hpasses⟩ := he.passes h.sound
  have hmade : ∀ job, th.Has job → s.th.Has job := fun job hjob => (hpasses.has hjob).resolve_right (by simp)
  have hasks : ∀ t p, (th.pc t).asks = some p → (s.th.pc t).asks = some p :=
    fun t p ht => (he.asks ht).resolve_right (by simp)
  cases hpasses with
  | stay why _ _ _ =>
    rcases why with hl | hstop
    · cases hl
    · rw [habort] at hstop
      cases hstop
  | purge hjobs hlive hpc =>
    have hwaiting := h.waiting_purge hjobs
    have hout := Throttle.outstanding_of_same hpc hlive
    have hfree : s.jobs.fault.isSome = false := by
      by_contra hfault
      simp [ProxyJobs.Sys.next, hfault] at hn
    simp only [ProxyJobs.Sys.next, hfree, Bool.false_eq_true, if_false, ProxyJobs.Sys.purge, hpurges, Option.some.injEq]
      at hn
    have hqueued := h.queued id
    split at hn
    · next hmem =>
      obtain ⟨hwaits, hnone, hends, -, hlt⟩ := h.alone (hqueued ▸ List.count_pos_iff.mpr hmem)
      subst hn
      refine ⟨sound, h.serials.effect he, fun job hjob => ?_, fun t p ht => h.asks t p (hasks t p ht), fun j => ?_,
        fun j => ?_⟩
      · refine (h.made job (hmade job hjob)).trans (dispatched_congr ?_)
        exact ProxyJobs.field_update ProxyJobs.PipeJob.priority rfl
      · dsimp only
        rw [hwaiting]
        split
        · next hj => rw [hj, List.count_erase_self, hqueued, hwaits]
        · next hj => rw [List.count_erase_of_ne hj, h.queued j]
      · have hplaced := h.placed j
        dsimp only [ProxyJobs.Sys.close, ProxyJobs.Sys.setJob]
        rw [hwaiting, hout]
        by_cases hj : j = id
        · rw [if_pos hj, hj, hnone, hends, Function.update_self, accepted, if_pos hlt]
          rfl
        · rw [if_neg hj, Function.update_of_ne hj]
          exact hplaced
    · next hmem =>
      have hnone : s.th.waiting (is id) = 0 := by
        rw [← hqueued]
        exact List.count_eq_zero.mpr hmem
      have hsame : ∀ j, th.waiting (is j) = s.th.waiting (is j) := fun j => by
        rw [hwaiting]
        split
        · next hj => rw [hj, hnone]
        · rfl
      subst hn
      refine ⟨sound, h.serials.effect he, fun job hjob => h.made job (hmade job hjob),
        fun t p ht => h.asks t p (hasks t p ht), fun j => ?_, fun j => ?_⟩
      · dsimp only
        rw [hsame, h.queued j]
      · dsimp only
        rw [hsame, hout]
        exact h.placed j

theorem tally_ends (t : Thread W) (d : Option Nat) (j : Nat) :
    tally (ends j) (Function.update s.dying t d) + ends j (s.dying t) = tally (ends j) s.dying + ends j d :=
  tally_update (ends j) s.dying t d

/-- The destructor of a job takes it from the jobs that are counted. -/
theorem Agrees.complete (h : Agrees s) {t : Thread W} {job : Nat} {tj : ThrottleJob Nat} (idle : s.dying t = none)
    (found : s.th.live.find? (·.job.jobData == job) = some tj) (next : s.th.next (.complete t tj.serial) = some th) :
    Agrees { s with th := th, dying := Function.update s.dying t (some job) } := by
  have he := Throttle.next_effect next
  obtain ⟨sound, hpasses⟩ := he.passes h.sound
  have hserial := KeyedList.find?_key h.serials.nodup (List.mem_of_find?_eq_some found)
  have hdata : tj.job.jobData = job := by simpa using List.find?_some found
  have hmade : ∀ job', th.Has job' → s.th.Has job' := fun job' hjob => (hpasses.has hjob).resolve_right (by simp)
  have hasks : ∀ u p, (th.pc u).asks = some p → (s.th.pc u).asks = some p := fun u p hu =>
    (he.asks hu).resolve_right (by simp)
  have hcounts : ∀ f, th.waiting f = s.th.waiting f ∧ s.th.outstanding f = th.outstanding f + if f tj.job then 1 else 0 := by
    cases he with
    | complete pc found _ =>
      intro f
      obtain rfl : _ = tj := Option.some.inj (found.symm.trans hserial)
      exact ⟨rfl, Throttle.outstanding_of_complete pc found rfl rfl⟩
    | @fail _ a =>
      -- A destructor cannot stop the process.
      unfold Throttle.Sys.next at next
      split at next
      · cases next
      · next hrunning =>
        have hsame : s.th.abort = some a := by
          dsimp only [Throttle.Sys.complete] at next
          split at next
          · split at next
            · exact congrArg Throttle.Sys.abort (Option.some.inj next)
            · cases next
          · cases next
        exact absurd (by rw [hsame]; rfl) hrunning
  refine ⟨sound, h.serials.effect he, fun job' hjob => h.made job' (hmade job' hjob),
    fun u p hu => h.asks u p (hasks u p hu), fun j => ?_, fun j => ?_⟩
  · exact (h.queued j).trans (hcounts _).1.symm
  · have hplaced := h.placed j
    have hends := tally_ends (s := s) t (some job) j
    dsimp only
    rw [(hcounts _).2] at hplaced
    rw [(hcounts _).1]
    rw [idle] at hends
    have hnew : ends j (some job) = if is j tj.job then 1 else 0 := by simp [ends, is, hdata]
    have hnone : ends j none = 0 := rfl
    omega

/-- With the members of a job its sockets are gone. -/
theorem Agrees.destroy (h : Agrees s) {t : Thread W} {job : Nat} (hdying : s.dying t = some job)
    (hn : s.jobs.next (.destroy job) = some jobs) :
    Agrees { s with jobs := jobs, dying := Function.update s.dying t none } := by
  cases (ProxyJobs.next_step hn).2 with
  | fault fails => cases fails
  | destroy lt queue fresh dead stat =>
    refine ⟨h.sound, h.serials, fun job' hjob => ?_, h.asks, h.queued, fun j => ?_⟩
    · exact (h.made job' hjob).trans (dispatched_congr (ProxyJobs.field_update ProxyJobs.PipeJob.priority rfl))
    · have hplaced := h.placed j
      have hends := tally_ends (s := s) t none j
      have hnone : ends j none = 0 := rfl
      rw [hdying] at hends
      dsimp only [ProxyJobs.Sys.close, ProxyJobs.Sys.setJob]
      by_cases hj : j = job
      · have hone : ends j (some job) = 1 := if_pos (congrArg some hj.symm)
        rw [hj, fresh, Bool.toNat_false] at hplaced
        rw [hj] at hends hone hnone ⊢
        rw [Function.update_self, Bool.toNat_true]
        omega
      · have hzero : ends j (some job) = 0 := if_neg fun heq => hj (Option.some.inj heq).symm
        rw [Function.update_of_ne hj]
        omega

/-! ### Whole runs -/

/-- A thread outside the throttler does not wait for a job. -/
theorem asks_of_outside {c : Throttle.Pc Nat} (h : outside c = true) : c.asks = none := by
  cases c <;> first | rfl | cases h

theorem Agrees.step (h : Agrees s) {l : Label W} (hs : Step s l s') (habort : s'.th.abort = none) : Agrees s' := by
  have settled : ∀ {l : Throttle.Label (Thread W) Nat} {th : Throttle.Sys (Thread W) Nat}, s.th.next l = some th →
      l.handles = false → (∀ t, l ≠ .step t) →
      ∀ f, th.waiting f = s.th.waiting f ∧ th.outstanding f = s.th.outstanding f := by
    intro l th hth hl hother
    rcases ((Throttle.next_effect hth).passes h.sound).2.settled hl with ⟨hcounts, -⟩ | ⟨t, _, _, hstep, -⟩
    · exact hcounts
    · exact absurd hstep (hother t)
  cases hs with
  | ordinary ordinary next out =>
    exact h.ordinary ((ProxyJobs.next_step next).2.ordinary ordinary) fun p hp => asks_of_outside (out p hp)
  | accept next enqueue => exact h.accept next (Throttle.next_effect enqueue) habort
  | purge purges next purge => exact h.purge purges next (Throttle.next_effect purge) habort
  | dequeue idle next =>
    refine h.throttler (Throttle.next_effect next) (settled next rfl (by simp)) rfl ?_
    rintro t p' ⟨⟩
    exact ⟨rfl, idle⟩
  | @take t p p' job jobs th step pc after next =>
    have he := Throttle.next_effect step
    rcases (he.passes h.sound).2.settled rfl with ⟨-, hstay⟩ | ⟨u, q, job', hl, hpc, hpops, hlive, hafter⟩
    · exact absurd after (hstay t p p' job pc)
    · cases hl
      obtain rfl : q = p := by simpa [pc] using hpc.symm
      obtain rfl : job' = job := by
        rw [hafter, Function.update_self] at after
        cases after
        rfl
      exact h.take he hpc hpops hlive hafter next
  | @step t th step other =>
    have he := Throttle.next_effect step
    rcases (he.passes h.sound).2.settled rfl with ⟨hcounts, -⟩ | ⟨u, p, job, hl, hpc, -, -, hafter⟩
    · exact h.throttler he hcounts rfl (by simp)
    · cases hl
      exact absurd (by rw [hafter, Function.update_self]) (other p p job hpc)
  | complete idle _ found next => exact h.complete idle found next
  | destroy dying next => exact h.destroy dying next
  | setThrottle next => exact h.throttler (Throttle.next_effect next) (settled next rfl (by simp)) rfl (by simp)

variable {targets : Fin 2 → Int} {xs : List (Sys W × Label W)}

theorem Agrees.init : Agrees (system W targets).init where
  sound := ⟨.new, rfl⟩
  serials := ⟨List.nodup_nil, fun _ htj => by cases htj⟩
  made job hjob := by
    rcases hjob with ⟨p, hp⟩ | ⟨t, p, ht⟩ | ⟨tj, htj, -⟩
    · cases hp
    · cases ht
    · cases htj
  asks t p ht := by cases ht
  queued j := (Fifo.count_of_none fun p job hjob => by cases hjob).symm
  placed j := by
    have hwaiting : (system W targets).init.th.waiting (is j) = 0 := Fifo.count_of_none fun p job hjob => by cases hjob
    have hout : (system W targets).init.th.outstanding (is j) = 0 := by
      have hpc : tally (Throttle.Pc.carries (is j)) (system W targets).init.th.pc = 0 := Finset.sum_eq_zero fun _ _ => rfl
      rw [Throttle.Sys.outstanding, hpc]
      rfl
    have hends : tally (ends j) (system W targets).init.dying = 0 := Finset.sum_eq_zero fun _ _ => rfl
    rw [hwaiting, hout, hends]
    rfl

/-- By induction on the run, as long as the process has not stopped. -/
theorem agrees_of_run (run : (system W targets).Run xs s) : s.th.abort = none → Agrees s := by
  refine run.always (P := fun s => s.th.abort = none → Agrees s) (fun _ => .init) fun _ ih hn habort => ?_
  obtain ⟨hrunning, hs⟩ := next_step hn
  exact (ih hrunning).step hs habort

/-! ### The two halves of a run -/

/-- The step of the throttler that a step is. -/
def Sys.throttlerLabel (s : Sys W) : Label W → Option (Throttle.Label (Thread W) Nat)
  | .jobs (.accept soc) =>
    (s.jobs.next (.accept soc)).map fun jobs => .queueOp (.enqueue (dispatched jobs s.jobs.jobCount))
  | .jobs .purge => s.jobs.purges.head?.map fun job => .queueOp (.purge job)
  | .jobs _ | .destroy _ => none
  | .dequeue p => some (.dequeue (.inl p) p)
  | .step t => some (.step t)
  | .complete t job => (s.th.live.find? (·.job.jobData == job)).map fun tj => .complete t tj.serial
  | .setThrottle p threshold => some (.setThrottle p threshold)

theorem Step.throttler {l : Label W} (hs : Step s l s') :
    (s.throttlerLabel l).elim (s'.th = s.th) fun m => s.th.next m = some s'.th := by
  cases hs with
  | @ordinary l jobs ordinary next out => cases l <;> first | rfl | cases ordinary
  | accept next enqueue =>
    rw [Sys.throttlerLabel, next]
    exact enqueue
  | purge purges _ purge =>
    rw [Sys.throttlerLabel, purges]
    exact purge
  | complete _ _ found next =>
    rw [Sys.throttlerLabel, found]
    exact next
  | destroy _ _ => rfl
  | dequeue _ next | setThrottle next => exact next
  | take step _ _ _ | step step _ => exact step

/-- The step of the jobs that a step is. -/
def Sys.jobsLabel (s : Sys W) : Label W → Option (ProxyJobs.Label (Fin 2) W)
  | .jobs l => some l
  | .step t => (s.th.next (.step t)).bind fun th =>
    match s.th.pc t, th.pc t with
    | .queue p, .wrap _ job => some (.take p job.jobData)
    | _, _ => none
  | .destroy t => (s.dying t).map .destroy
  | .dequeue _ | .complete _ _ | .setThrottle _ _ => none

theorem Step.proxyJobs {l : Label W} (hs : Step s l s') :
    (s.jobsLabel l).elim (s'.jobs = s.jobs) fun m => s.jobs.next m = some s'.jobs := by
  cases hs with
  | ordinary _ next _ | accept next _ | purge _ next _ => exact next
  | take step pc after next =>
    simp only [Sys.jobsLabel, step, Option.bind_some, pc, after, Option.elim_some]
    exact next
  | step step other =>
    simp only [Sys.jobsLabel, step, Option.bind_some]
    trivial
  | destroy dying next =>
    rw [Sys.jobsLabel, dying]
    exact next
  | dequeue _ _ | complete _ _ _ _ | setThrottle _ => rfl

/-- A run of the proxy is a run of its throttler and one of its jobs. -/
theorem throttler_run (run : (system W targets).Run xs s) : (Throttle.system (Thread W) Nat targets).Run
    (xs.filterMap fun x => (x.1.throttlerLabel x.2).map (x.1.th, ·)) s.th :=
  run.project (f := Sys.th) (g := Sys.throttlerLabel) rfl fun hn => (next_step hn).2.throttler

theorem jobs_run (run : (system W targets).Run xs s) : (ProxyJobs.system (Fin 2) W).Run
    (xs.filterMap fun x => (x.1.jobsLabel x.2).map (x.1.jobs, ·)) s.jobs :=
  run.project (f := Sys.jobs) (g := Sys.jobsLabel) rfl fun hn => (next_step hn).2.proxyJobs

/-- A thread comes to a destructor when the last pointer to the job is gone. -/
theorem Step.dying {l : Label W} (hs : Step s l s') {t : Thread W} {j : Nat} (h : s'.dying t = some j) :
    s.dying t = some j ∨ s.Released j ∧ s'.jobs = s.jobs := by
  cases hs with
  | complete _ released _ _ =>
    dsimp only at h
    rw [Function.update_apply] at h
    split at h
    · cases h
      exact Or.inr ⟨released, rfl⟩
    · exact Or.inl h
  | destroy _ _ =>
    dsimp only at h
    rw [Function.update_apply] at h
    split at h
    · cases h
    · exact Or.inl h
  | _ => exact Or.inl h

/-- Nobody has a job whose destructor runs. -/
theorem dying_of_run (run : (system W targets).Run xs s) :
    ∀ t j, s.dying t = some j → j < s.jobs.jobCount ∧ ¬s.jobs.Owned j := by
  refine run.always (P := fun s => ∀ t j, s.dying t = some j → j < s.jobs.jobCount ∧ ¬s.jobs.Owned j)
    (fun t j ht => by cases ht) ?_
  intro xs s l s' run ih hn t j ht
  obtain ⟨-, hstep⟩ := next_step hn
  rcases hstep.dying ht with hbefore | ⟨⟨hlt, hqueue, -, hdead, -⟩, hsame⟩
  · obtain ⟨hlt, hnone⟩ := ih t j hbefore
    have hjobs := hstep.proxyJobs
    cases hl : s.jobsLabel l with
    | none =>
      rw [hl] at hjobs
      rw [show s'.jobs = s.jobs from hjobs]
      exact ⟨hlt, hnone⟩
    | some m =>
      rw [hl] at hjobs
      have hs := (ProxyJobs.next_step hjobs).2
      refine ⟨hlt.trans_le hs.jobCount_le, fun howned => ?_⟩
      rcases hs.owned (ProxyJobs.known_of_run (jobs_run run)) howned with hold | ⟨rfl, -⟩
      · exact hnone hold
      · exact Nat.lt_irrefl _ hlt
  · rw [hsame]
    exact ⟨hlt, fun howned => howned.elim hqueue hdead⟩

/-! ### The limit -/

omit [DecidableEq W] in
/-- The jobs of a set that are out of the queue, and of one priority, are counted under it. -/
theorem Agrees.card_le (h : Agrees s) {js : Finset Nat} {p : Fin 2} (hprio : ∀ j ∈ js, (s.jobs.jobs j).priority = p) :
    ∑ j ∈ js, s.th.outstanding (is j) ≤ s.th.outstanding (·.priority == p.val) := by
  refine Throttle.sum_outstanding_le fun job hjob => ?_
  have hpriority : job.priority = (s.jobs.jobs job.jobData).priority := congrArg Job.priority (h.made job hjob)
  simp only [is, beq_iff_eq, Finset.sum_ite_eq]
  split
  · next hmem => rw [if_pos (hpriority.trans (hprio _ hmem))]
  · exact Nat.zero_le _

omit [DecidableEq W] in
/-- Every thread runs at most one destructor. -/
theorem sum_ends_le (js : Finset Nat) :
    ∑ j ∈ js, tally (ends j) s.dying ≤ (Finset.univ.filter fun t => s.dying t ≠ none).card := by
  unfold tally
  rw [Finset.sum_comm, Finset.card_filter]
  refine Finset.sum_le_sum fun t _ => ?_
  cases s.dying t with
  | none => exact (Finset.sum_eq_zero fun _ _ => rfl).le
  | some job =>
    simp only [ends, Option.some.injEq, Finset.sum_ite_eq, ne_eq, reduceCtorEq, not_false_eq_true, if_true]
    split <;> omega

omit [DecidableEq W] in
/-- A job that is neither in the queue nor destroyed is out, or in its destructor. -/
theorem Agrees.out_or_ends (h : Agrees s) {j : Nat} (hlt : j < s.jobs.jobCount) (hqueue : j ∉ s.jobs.queue)
    (hlive : (s.jobs.jobs j).destroyed = false) : s.th.outstanding (is j) + tally (ends j) s.dying = 1 := by
  have hplaced := h.placed j
  rw [← h.queued j, List.count_eq_zero.mpr hqueue, hlive, accepted, if_pos hlt, Bool.toNat_false] at hplaced
  omega

/-- The throttler bounds what the proxy really does: with an unchanged target, the jobs of a priority that some thread,
    task or callback has are never more than the target. The jobs that have left the `MultiQueue` and are not destroyed,
    with their sockets open, may be more, by one for each thread that runs a destructor, because a job is taken from the
    count before its sockets are closed. -/
theorem connections_throttled (run : (system W targets).Run xs s) (hn : ∀ p, 0 ≤ targets p) (habort : s.th.abort = none)
    {p : Fin 2} (hxs : ∀ x ∈ xs, ∀ v, x.2 ≠ .setThrottle p v) :
    (∀ js : Finset Nat, (∀ j ∈ js, (s.jobs.jobs j).priority = p ∧ s.jobs.Alive j) → (js.card : Int) ≤ targets p) ∧
    ∀ js : Finset Nat, (∀ j ∈ js, (s.jobs.jobs j).priority = p ∧ j < s.jobs.jobCount ∧ j ∉ s.jobs.queue ∧
        (s.jobs.jobs j).destroyed = false) →
      (js.card : Int) ≤ targets p + (Finset.univ.filter fun t => s.dying t ≠ none).card := by
  have h := agrees_of_run run habort
  have hbound := Throttle.outstanding_le_target (p := p) (throttler_run run) hn (by
    intro x hx v hl
    obtain ⟨y, hy, hmap⟩ := List.mem_filterMap.mp hx
    obtain ⟨m, hm, rfl⟩ := Option.map_eq_some_iff.mp hmap
    obtain rfl : m = .setThrottle p v := hl
    obtain ⟨r, l⟩ := y
    cases l with
    | setThrottle p' v' =>
      cases hm
      exact hxs _ hy v rfl
    | jobs l => cases l <;> simp [Sys.throttlerLabel] at hm
    | _ => simp [Sys.throttlerLabel] at hm)
  constructor
  · intro js hjs
    have hone : ∀ j ∈ js, 1 ≤ s.th.outstanding (is j) := by
      intro j hj
      have howned : s.jobs.Owned j := Or.inr (hjs j hj).2
      have hqueue : j ∉ s.jobs.queue := fun hq => ProxyJobs.not_alive_of_queued (jobs_run run) j hq (hjs j hj).2
      have hsum := h.out_or_ends (ProxyJobs.lt_of_owned (jobs_run run) howned) hqueue
        (ProxyJobs.not_destroyed_of_owned (jobs_run run) howned)
      have hends : tally (ends j) s.dying = 0 := Finset.sum_eq_zero fun t _ =>
        if_neg fun ht => (dying_of_run run t j ht).2 howned
      omega
    have hcard : js.card ≤ ∑ j ∈ js, s.th.outstanding (is j) := by
      rw [Finset.card_eq_sum_ones]
      exact Finset.sum_le_sum hone
    have hsum := h.card_le fun j hj => (hjs j hj).1
    omega
  · intro js hjs
    have hcard : js.card = ∑ j ∈ js, s.th.outstanding (is j) + ∑ j ∈ js, tally (ends j) s.dying := by
      rw [← Finset.sum_add_distrib, Finset.card_eq_sum_ones]
      refine Finset.sum_congr rfl fun j hj => ?_
      obtain ⟨-, hlt, hqueue, hlive⟩ := hjs j hj
      exact (h.out_or_ends hlt hqueue hlive).symm
    have hsum := h.card_le fun j hj => (hjs j hj).1
    have hends := sum_ends_le (s := s) js
    omega

/-- Two primary clients. No connection to the server is made for the first one, and the destructor of its job has let the
    second one through before it closes the socket. -/
def overlap : List (Label Unit) :=
  List.flatten [
    [.jobs (.wait [.listen kPrimaryPriority]), .jobs (.invoke true false 0), .jobs (.accept 5), .jobs (.accept 7),
      .jobs .accepted, .jobs .finish, .dequeue kPrimaryPriority],
    List.replicate 8 (.step (.inl kPrimaryPriority)),
    [.jobs (.schedule kPrimaryPriority), .jobs (.schedule kPrimaryPriority), .jobs (.connect kPrimaryPriority (-1) false)],
    List.replicate 3 (.jobs (.schedule kPrimaryPriority)),
    [.jobs (.start ()), .jobs (.work ()), .jobs (.work ()), .jobs (.work ()),
      .jobs (.wait [.pipe 0 .client]), .jobs (.invoke false false 0), .jobs .finish, .jobs (.start ()), .jobs (.work ()),
      .jobs (.work ()), .jobs (.work ()), .complete (.inr (some ())) 0],
    List.replicate 5 (.step (.inr (some ()))),
    [.dequeue kPrimaryPriority],
    List.replicate 3 (.step (.inl kPrimaryPriority))]

theorem connections_throttled_overlap : ∃ xs s, (system Unit ![1, 1]).Run xs s ∧ s.dying (.inr (some ())) = some 0 ∧
    s.jobs.sched 0 = .scheduled 1 ∧
    (∀ js : Finset Nat, (∀ j ∈ js, (s.jobs.jobs j).priority = 0 ∧ s.jobs.Alive j) → (js.card : Int) ≤ 1) ∧
    (({0, 1} : Finset Nat).card : Int) ≤ 1 + (Finset.univ.filter fun t => s.dying t ≠ none).card := by
  obtain ⟨xs, s, run, hlabels, hs⟩ := Lts.run_of_exec_any (system Unit ![1, 1]) overlap
    (fun s => s.th.abort.isNone && decide (s.dying (.inr (some ())) = some 0 ∧ s.jobs.sched 0 = .scheduled 1) &&
      decide (s.jobs.queue = [] ∧ s.jobs.jobCount = 2) &&
      [0, 1].all fun j => (s.jobs.jobs j).priority == 0 && !(s.jobs.jobs j).destroyed) (by decide)
  simp only [Bool.and_eq_true, decide_eq_true_eq, Option.isNone_iff_eq_none, List.all_eq_true, beq_iff_eq,
    Bool.not_eq_true'] at hs
  obtain ⟨⟨⟨habort, hdying, hsched⟩, hqueue, hcount⟩, hjobs⟩ := hs
  have hxs : ∀ x ∈ xs, ∀ v, x.2 ≠ .setThrottle 0 v := by
    intro x hx v hl
    have hmem : Label.setThrottle 0 v ∈ overlap := by
      rw [← hlabels, ← hl]
      exact List.mem_map_of_mem hx
    simp [overlap] at hmem
  have hopen : ∀ j ∈ ({0, 1} : Finset Nat), (s.jobs.jobs j).priority = 0 ∧ j < s.jobs.jobCount ∧ j ∉ s.jobs.queue ∧
      (s.jobs.jobs j).destroyed = false := by
    intro j hj
    have hmem : j ∈ [0, 1] := by simpa using hj
    obtain ⟨hprio, hlive⟩ := hjobs j hmem
    rw [hqueue, hcount]
    exact ⟨hprio, by rcases List.mem_pair.mp hmem with rfl | rfl <;> decide, List.not_mem_nil, hlive⟩
  obtain ⟨htaken, hsockets⟩ := connections_throttled run (by decide) habort hxs
  exact ⟨xs, s, run, hdying, hsched, htaken, hsockets _ hopen⟩

/-- No connection is lost or doubled on its way: while the process runs, every job that was accepted, and no other, is in
    exactly one place, the `MultiQueue`, the hands of those whom the throttler has let through, its destructor, or it is
    destroyed; and what `ReceivedConnection` has dispatched and nobody has taken or purged is what the `MultiQueue` holds. -/
theorem jobs_conserved (run : (system W targets).Run xs s) (habort : s.th.abort = none) (j : Nat) :
    s.th.waiting (is j) + s.th.outstanding (is j) + tally (ends j) s.dying + (s.jobs.jobs j).destroyed.toNat =
      accepted s.jobs.jobCount j ∧ s.jobs.queue.count j = s.th.waiting (is j) :=
  ⟨(agrees_of_run run habort).placed j, (agrees_of_run run habort).queued j⟩

/-- One client waits in the `MultiQueue`, and the other one is with the scheduling thread. -/
theorem jobs_conserved_one : ∃ xs s, (system Unit ![1, 1]).Run xs s ∧ s.jobs.queue = [1] ∧
    s.th.waiting (is 1) = 1 ∧ s.th.outstanding (is 0) = 1 := by
  obtain ⟨xs, s, run, -, hs⟩ := Lts.run_of_exec_any (system Unit ![1, 1]) (overlap.take 9)
    (fun s => s.th.abort.isNone && decide (s.jobs.queue = [1] ∧ s.jobs.jobCount = 2) &&
      decide (s.dying = fun _ => none) && !(s.jobs.jobs 0).destroyed) (by decide)
  simp only [Bool.and_eq_true, decide_eq_true_eq, Option.isNone_iff_eq_none, Bool.not_eq_true'] at hs
  obtain ⟨⟨⟨habort, hqueue, hcount⟩, hdying⟩, hlive⟩ := hs
  obtain ⟨hplaced, hwaiting⟩ := jobs_conserved run habort 0
  obtain ⟨-, hone⟩ := jobs_conserved run habort 1
  have hends : tally (ends 0) s.dying = 0 := by
    rw [hdying]
    exact Finset.sum_eq_zero fun _ _ => rfl
  rw [hqueue] at hone hwaiting
  rw [← hwaiting, hends, hlive, hcount] at hplaced
  exact ⟨xs, s, run, hqueue, hone.symm, by simpa [accepted] using hplaced⟩

end Dans.ThrottlingProxy
