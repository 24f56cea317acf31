import Dans.SocketNumbers
import Dans.Theorems.Holders
import Dans.Theorems.Wakeups

/-! Sockets by their numbers and by their sides. As long as the kernel gives no number twice, no two sockets of the jobs
    that are alive have one number; so what `TcpPipe` decides by numbers is what the model decides by sides, and none of
    its pointers is null where it uses it. -/

namespace Dans.ProxyJobs

variable {S W : Type}

/-! ### Jobs that are connected -/

/-- The job whose connection to the server the worker relies on. -/
def Work.linked : Work → Option Nat
  | monitorIn j | monitorOut j | testing j | deleting j | clearing j | monitor j _ _ | piping j _ | report j _ _
  | adding j _ _ _ | rearm j _ | returning j _ => some j
  | shutOther caller j side | shutting caller j side => if caller = .cliClosed ∧ side = .client then none else some j
  | idle | connect _ _ _ | cliClosed _ _ => none

def Place.linked : Place → Option Nat
  | queued _ | sched _ => none
  | armed cb | fetched cb | running cb => cb.closure.monitors.map (·.1)
  | task t => t.monitors.map (·.1)
  | work c => c.linked

variable {s s' : Sys S W} {l : Label S W} {old new : List Place} {j : Nat} {side : Side} {soc : Int}

/-- Whoever relies on a connection comes from there, or from the `ConnectCallback` that makes it. -/
theorem Turn.linked {n k n' k' : Nat} (h : Turn n k old new n' k') {p : Place} (hp : p ∈ new) (hj : p.linked = some j) :
    (∃ q ∈ old, q.linked = some j) ∨ p = .work (.shutOther .connect j .server) ∨ p = .work (.monitorIn j) := by
  have hone : ∀ {q : Place}, q.linked = some j →
      (∃ q' ∈ [q], q'.linked = some j) ∨ p = .work (.shutOther .connect j .server) ∨ p = .work (.monitorIn j) :=
    fun hq => Or.inl ⟨_, List.mem_singleton_self _, hq⟩
  cases h with
  | stay | finish _ | purge _ => cases hp
  | fetch cbs =>
    obtain ⟨cb, hcb, rfl⟩ := List.mem_map.mp hp
    exact Or.inl ⟨.armed cb, List.mem_map_of_mem hcb, hj⟩
  | serve _ _ | accept | connect _ _ | connectNow _ _ _ | cliClosed _ _ _ | connected _ _ _ _ =>
    rcases List.mem_pair.mp hp with rfl | rfl <;> cases hj
  | quiet _ =>
    cases List.mem_singleton.mp hp
    exact hone hj
  | monitored _ _ _ _ => rcases List.mem_pair.mp hp with rfl | rfl <;> exact hone hj
  | take _ =>
    cases List.mem_singleton.mp hp
    cases hj
  | schedule acts =>
    rcases List.mem_cons.mp hp with rfl | hp
    · cases hj
    · obtain ⟨c, hc, rfl⟩ := List.mem_map.mp hp
      cases acts with
      | monitor =>
        cases List.mem_singleton.mp hc
        cases hj
      | assign | test _ | delete | clear => cases hc
  | start task =>
    cases List.mem_singleton.mp hp
    refine Or.inl ⟨.task task, List.mem_cons_self, ?_⟩
    cases task <;> exact hj
  | @work r c a acts =>
    rcases List.mem_cons.mp hp with rfl | hp
    · cases acts with
      | connect next =>
        rcases next with rfl | rfl <;> cases hj
        · exact Or.inr (Or.inl rfl)
        · exact Or.inr (Or.inr rfl)
      | test next | monitor next =>
        rcases next with rfl | rfl <;> first | exact hone hj | cases hj
      | cliClosed next => rcases next with rfl | rfl <;> cases hj
      | monitorIn | monitorOut | delete | report | add | rearm | setShutdown _ => exact hone hj
      | clear | leave | alone _ | shutdown => cases hj
    · obtain ⟨c, hc, rfl⟩ := List.mem_map.mp hp
      cases acts with
      | monitorIn | monitorOut | rearm =>
        cases List.mem_singleton.mp hc
        exact hone hj
      | _ => cases hc
  | pipe j' side next =>
    cases List.mem_singleton.mp hp
    refine hone ?_
    rcases next with rfl | rfl | ⟨units, rfl⟩
    · exact hj
    · cases hj
    · exact hj

variable [Fintype S] [Fintype W] [DecidableEq S] [DecidableEq W]

/-- `ConnectCallback` comes to its next point with a connection. -/
theorem Step.out_made {w : W} (hs : Step s l s')
    (h : s'.work w = .shutOther .connect j .server ∨ s'.work w = .monitorIn j) :
    s'.work w = s.work w ∨ (s'.jobs j).out ≠ none := by
  rcases hs.work_cases w with heq | ⟨task, -, -, heq⟩ | ⟨j', a, -, job, acts, heq, hjob, -⟩ |
    ⟨j', side, _, _, _, p, -, -, -, heq⟩
  · exact Or.inl heq
  · rw [heq] at h
    cases task <;> rcases h with h | h <;> cases h
  · rw [heq] at h
    generalize s.work w = c at job acts
    cases acts with
    | connect next =>
      cases job
      refine Or.inr ?_
      rcases next with rfl | rfl <;> rcases h with h | h <;> cases h <;> simp [hjob]
    | test next | monitor next | cliClosed next => rcases next with rfl | rfl <;> rcases h with h | h <;> cases h
    | _ => rcases h with h | h <;> cases h
  · rw [heq] at h
    rcases Work.piped_cases j' side ((s.jobs j').soc side) p.ret with heq | heq | ⟨units, heq⟩ <;> rw [heq] at h <;>
      rcases h with h | h <;> cases h

variable {xs : List (Sys S W × Label S W)}

/-- A job has a connection to the server where somebody relies on it. -/
theorem out_of_linked (run : (system S W).Run xs s) :
    ∀ p j, s.Has p → p.linked = some j → (s.jobs j).out ≠ none := by
  induction run with
  | init =>
    intro p j hp hj
    cases p with
    | queued _ | sched _ => cases hj
    | armed cb =>
      rcases List.mem_pair.mp hp with rfl | rfl <;> cases hj
    | fetched _ | task _ => cases hp
    | running _ => cases hp
    | work c =>
      obtain ⟨w, rfl⟩ := hp
      cases hj
  | @step xs s s' l run hn ih =>
    intro p j hp hj
    have hs := (next_step hn).2
    have hkeep : (s.jobs j).out ≠ none → (s'.jobs j).out ≠ none := (hs.links j).connection_ne_none run .server
    obtain ⟨old, new, hturn, hmoves⟩ := hs.moves
    rcases hmoves.has hp with hbefore | hnew
    · exact hkeep (ih p j hbefore hj)
    · rcases hturn.linked hnew hj with ⟨q, hq, hqj⟩ | hconnect
      · exact hkeep (ih q j (hmoves.here q hq) hqj)
      · obtain ⟨c, rfl, hc⟩ : ∃ c, p = .work c ∧ (c = .shutOther .connect j .server ∨ c = .monitorIn j) := by
          rcases hconnect with rfl | rfl
          · exact ⟨_, rfl, Or.inl rfl⟩
          · exact ⟨_, rfl, Or.inr rfl⟩
        obtain ⟨w, rfl⟩ := hp
        rcases hs.out_made hc with heq | hout
        · exact hkeep (ih (.work (s'.work w)) j ⟨w, heq.symm⟩ hj)
        · exact hout

/-! ### One owner for each number -/

/-- The job and the side that the number stands for. -/
def Sys.Dials (s : Sys S W) (j : Nat) (soc : Int) : Prop :=
  (∃ cb ∈ s.epoll ++ s.batch, cb.closure.dials = some (j, soc)) ∨ (∃ task ∈ s.tasks, task.dials = some (j, soc)) ∨
    ∃ w, (s.work w).dials = some (j, soc)

def Sys.Owns (s : Sys S W) (soc : Int) (j : Nat) : Side → Prop
  | .client => j < s.jobCount ∧ (s.jobs j).destroyed = false ∧ (s.jobs j).inp.soc = soc
  | .server => s.Dials j soc ∨ j < s.jobCount ∧ (s.jobs j).destroyed = false ∧ (s.jobs j).out.map (·.soc) = some soc

omit [Fintype S] [Fintype W] [DecidableEq S] [DecidableEq W] in
theorem isOpen_of_owns (h : s.Owns soc j side) : s.IsOpen soc := by
  have hdials : ∀ {d : Option (Nat × Int)}, d = some (j, soc) → d.map (·.2) = some soc := fun hd => by rw [hd]; rfl
  cases side with
  | client =>
    obtain ⟨hlt, hlive, hsoc⟩ := h
    exact Or.inl ⟨j, hlt, hlive, Or.inl hsoc⟩
  | server =>
    rcases h with (⟨cb, hcb, hd⟩ | ⟨task, htask, hd⟩ | ⟨w, hd⟩) | ⟨hlt, hlive, hsoc⟩
    · exact Or.inr (Or.inl ⟨cb, hcb, hdials hd⟩)
    · exact Or.inr (Or.inr (Or.inl ⟨task, htask, hdials hd⟩))
    · exact Or.inr (Or.inr (Or.inr ⟨w, hdials hd⟩))
    · exact Or.inl ⟨j, hlt, hlive, Or.inr hsoc⟩

omit [Fintype S] [Fintype W] [DecidableEq S] [DecidableEq W] in
theorem Sched.Acts.register_dials {n : Nat} {r : PipeJob} {c : Sched} {a : Act Sched} (h : c.Acts n r a) :
    ∀ c', a.register = some c' → c'.dials = none := by
  intro c' hc
  cases h with
  | monitor =>
    cases hc
    rfl
  | assign | test _ | delete | clear => cases hc

omit [Fintype S] [Fintype W] [DecidableEq S] [DecidableEq W] in
theorem Work.Acts.register_dials {r : PipeJob} {c : Work} {a : Act Work} (h : c.Acts r a) :
    ∀ c', a.register = some c' → c'.dials = none := by
  intro c' hc
  cases h with
  | monitorIn | monitorOut | rearm =>
    cases hc
    rfl
  | _ => cases hc

/-- The socket of a connection is on its way from `Connect`. -/
theorem Step.dials (hs : Step s l s') (h : s'.Dials j soc) :
    s.Dials j soc ∨ ∃ t b, l = .connect t soc b ∧ s.sched t = .connecting j := by
  have hepoll : ∀ {cb : Callback}, cb ∈ s.epoll → cb.closure.dials = some (j, soc) → s.Dials j soc :=
    fun hcb hd => Or.inl ⟨_, List.mem_append_left _ hcb, hd⟩
  have hbatch : ∀ {cb : Callback}, cb ∈ s.batch → cb.closure.dials = some (j, soc) → s.Dials j soc :=
    fun hcb hd => Or.inl ⟨_, List.mem_append_right _ hcb, hd⟩
  have htasks : ∀ {task : Task}, task ∈ s.tasks → task.dials = some (j, soc) → s.Dials j soc :=
    fun htask hd => Or.inr (Or.inl ⟨_, htask, hd⟩)
  have harmed : ∀ {c : Option Closure} {cb : Callback}, (∀ c', c = some c' → c'.dials = none) → cb ∈ s.armed c →
      cb.closure.dials = some (j, soc) → s.Dials j soc := by
    intro c cb hc hcb hd
    rcases mem_armed hcb with ⟨hcb, -⟩ | ⟨hsome, -⟩
    · exact hepoll hcb hd
    · rw [hc _ hsome] at hd
      cases hd
  have hnone : ∀ {c c' : Closure}, c.dials = none → some c = some c' → c'.dials = none :=
    fun hc heq => Option.some.inj heq ▸ hc
  rcases h with ⟨cb, hcb, hd⟩ | ⟨task, htask, hd⟩ | ⟨w, hd⟩
  · rcases List.mem_append.mp hcb with hcb | hcb
    · cases hs with
      | wait _ perm => exact Or.inl (hepoll (perm.subset (List.mem_append_right _ hcb)) hd)
      | serve _ _ _ | accept _ => exact Or.inl (harmed (fun _ => hnone rfl) hcb hd)
      | schedule _ acts _ => exact Or.inl (harmed acts.register_dials hcb hd)
      | work _ acts _ => exact Or.inl (harmed acts.register_dials hcb hd)
      | @connect t j' soc' sched =>
        rcases mem_armed (c := some (.connect j' soc')) hcb with ⟨hcb, -⟩ | ⟨hsome, -⟩
        · exact Or.inl (hepoll hcb hd)
        · rw [← Option.some.inj hsome] at hd
          cases hd
          exact Or.inr ⟨t, true, rfl, sched⟩
      | purge _ _ | destroy _ _ _ _ _ => exact Or.inl (hepoll (List.mem_filter.mp hcb).1 hd)
      | _ => exact Or.inl (hepoll hcb hd)
    · cases hs with
      | wait _ perm =>
        rcases List.mem_append.mp hcb with hcb | hcb
        · exact Or.inl (hbatch hcb hd)
        · exact Or.inl (hepoll (perm.subset (List.mem_append_left _ hcb)) hd)
      | serve _ batch _ | closing _ batch _ | first _ batch _ | cliClosed _ batch _ | connected _ batch _
      | monitored _ batch _ => exact Or.inl (hbatch (batch ▸ List.mem_cons_of_mem _ hcb) hd)
      | _ => exact Or.inl (hbatch hcb hd)
  · cases hs with
    | @connected id j' soc' rest inp out err ready _ batch _ =>
      rcases List.mem_append.mp htask with htask | htask
      · exact Or.inl (htasks htask hd)
      · cases List.mem_singleton.mp htask
        have hmem : ⟨id, .connect j' soc'⟩ ∈ s.batch := batch ▸ List.mem_cons_self
        exact Or.inl (hbatch hmem hd)
    | cliClosed _ _ _ | monitored _ _ _ =>
      rcases List.mem_append.mp htask with htask | htask
      · exact Or.inl (htasks htask hd)
      · cases List.mem_singleton.mp htask
        cases hd
    | @connectNow t j' soc' sched =>
      rcases List.mem_append.mp htask with htask | htask
      · exact Or.inl (htasks htask hd)
      · cases List.mem_singleton.mp htask
        cases hd
        exact Or.inr ⟨t, false, rfl, sched⟩
    | start _ tasks => exact Or.inl (htasks (tasks ▸ List.mem_cons_of_mem _ htask) hd)
    | schedule _ acts _ => exact Or.inl (htasks (by simpa [Sys.perform, acts.submit] using htask) hd)
    | work _ acts _ => exact Or.inl (htasks (by simpa [Sys.perform, acts.submit] using htask) hd)
    | _ => exact Or.inl (htasks htask hd)
  · rcases hs.work_cases w with heq | ⟨task, htask, -, heq⟩ | ⟨j', a, -, -, acts, heq, -, -⟩ |
      ⟨j', side, _, _, _, p, -, -, -, heq⟩
    · exact Or.inl (Or.inr (Or.inr ⟨w, heq ▸ hd⟩))
    · rw [heq] at hd
      refine Or.inl (htasks htask ?_)
      cases task <;> exact hd
    · rw [heq] at hd
      generalize s.work w = c at acts
      cases acts with
      | connect next | test next | monitor next | cliClosed next => rcases next with rfl | rfl <;> cases hd
      | _ => cases hd
    · rw [heq] at hd
      rcases Work.piped_cases j' side ((s.jobs j').soc side) p.ret with heq | heq | ⟨units, heq⟩ <;> rw [heq] at hd <;>
        cases hd

/-- Jobs are made by `accept4`, with the socket that it returns. -/
theorem Step.accepts (hs : Step s l s') : s'.jobCount = s.jobCount ∨ ∃ soc p id, l = .accept soc ∧
    s'.jobs = Function.update s.jobs s.jobCount (.new p soc id) ∧ s'.jobCount = s.jobCount + 1 := by
  cases hs with
  | accept _ => exact Or.inr ⟨_, _, _, rfl, rfl, rfl⟩
  | _ => exact Or.inl rfl

/-- A job that is not destroyed was not before. -/
theorem Step.undestroyed (hs : Step s l s') (hlt : j < s.jobCount) (h : (s'.jobs j).destroyed = false) :
    (s.jobs j).destroyed = false := by
  have hkeep : ∀ {j' : Nat} {r : PipeJob}, (Function.update s.jobs j' r j).destroyed = false →
      r.destroyed = (s.jobs j').destroyed ∨ r.destroyed = true → (s.jobs j).destroyed = false := by
    intro j' r h hr
    rw [Function.update_apply] at h
    split at h
    · next heq =>
      rcases hr with hr | hr
      · rw [heq, ← hr]
        exact h
      · rw [hr] at h
        cases h
    · exact h
  cases hs with
  | first _ _ _ | cliClosed _ _ _ | pipe _ _ => exact hkeep h (Or.inl rfl)
  | purge _ _ | destroy _ _ _ _ _ => exact hkeep h (Or.inr rfl)
  | accept _ =>
    dsimp only at h
    rwa [Function.update_of_ne (Nat.ne_of_lt hlt)] at h
  | @schedule t _ _ _ acts _ =>
    refine hkeep h (Or.inl ?_)
    generalize s.sched t = c at acts
    cases acts <;> rfl
  | @work w _ _ _ acts _ =>
    refine hkeep h (Or.inl ?_)
    generalize s.work w = c at acts
    cases acts with
    | @setShutdown _ _ side _ | @shutdown _ _ side => cases side <;> rfl
    | _ => rfl
  | _ => exact h

omit [Fintype S] [Fintype W] [DecidableEq S] [DecidableEq W] in
theorem Connection.issue_soc (c : Connection) : c.issue.soc = c.soc := by
  unfold Connection.issue
  split <;> rfl

omit [Fintype S] [Fintype W] [DecidableEq S] [DecidableEq W] in
/-- Shutting a connection down keeps the numbers. -/
theorem modify_soc (r : PipeJob) {f : Connection → Connection} (hf : ∀ c, (f c).soc = c.soc) (side side' : Side) :
    ((r.modify f side).connection side').map (·.soc) = (r.connection side').map (·.soc) := by
  rcases Side.eq_or_other side side' with rfl | rfl
  · rw [connection_modify, Option.map_map]
    congr 1
    exact funext hf
  · rw [connection_modify_other]

/-- A number gets an owner only from the kernel. -/
theorem Step.owns (hs : Step s l s') (h : s'.Owns soc j side) : s.Owns soc j side ∨
    (l = .accept soc ∧ j = s.jobCount ∧ side = .client) ∨
    ∃ t b, l = .connect t soc b ∧ s.sched t = .connecting j ∧ side = .server := by
  -- The numbers of a job that was there before are what they were, but for the connection that is made.
  have hsame : j < s.jobCount → ∀ side', ((s'.jobs j).connection side').map (·.soc) = some soc →
      ((s.jobs j).connection side').map (·.soc) = some soc ∨ side' = .server ∧ s.Dials j soc := by
    intro hlt side' hsoc
    cases hs.links j with
    | same h => exact Or.inl (by rwa [← h])
    | accept le _ => exact absurd hlt (Nat.not_lt.mpr le)
    | @connect w soc' ready _ work inp out =>
      cases side' with
      | client =>
        rw [PipeJob.connection, inp] at hsoc
        exact Or.inl hsoc
      | server =>
        rw [PipeJob.connection, out] at hsoc
        cases hsoc
        exact Or.inr ⟨rfl, Or.inr (Or.inr ⟨w, by rw [work]; rfl⟩)⟩
    | setShutdown _ _ job _ =>
      rw [job, modify_soc (f := .setShutdown) _ (fun _ => rfl)] at hsoc
      exact Or.inl hsoc
    | issue _ _ job =>
      rw [job, modify_soc _ Connection.issue_soc] at hsoc
      exact Or.inl hsoc
  cases side with
  | client =>
    obtain ⟨hlt, hlive, hsoc⟩ := h
    rcases hs.accepts with hcount | ⟨soc', p, id, rfl, hjobs, hcount⟩
    · rw [hcount] at hlt
      obtain hsoc := (hsame hlt .client (congrArg some hsoc)).resolve_right fun h => by cases h.1
      exact Or.inl ⟨hlt, hs.undestroyed hlt hlive, Option.some.inj hsoc⟩
    · by_cases hj : j = s.jobCount
      · rw [hjobs, hj, Function.update_self] at hsoc
        exact Or.inr (Or.inl ⟨by rw [← hsoc]; rfl, hj, rfl⟩)
      · have hlt' : j < s.jobCount := by omega
        obtain hsoc := (hsame hlt' .client (congrArg some hsoc)).resolve_right fun h => by cases h.1
        exact Or.inl ⟨hlt', hs.undestroyed hlt' hlive, Option.some.inj hsoc⟩
  | server =>
    rcases h with hdials | ⟨hlt, hlive, hsoc⟩
    · rcases hs.dials hdials with hdials | ⟨t, b, hl, hsched⟩
      · exact Or.inl (Or.inl hdials)
      · exact Or.inr (Or.inr ⟨t, b, hl, hsched, rfl⟩)
    · have hlt' : j < s.jobCount := by
        rcases hs.accepts with hcount | ⟨soc', p, id, -, hjobs, hcount⟩
        · omega
        · by_contra hge
          have hj : j = s.jobCount := by omega
          rw [hjobs, hj, Function.update_self] at hsoc
          cases hsoc
      rcases hsame hlt' .server hsoc with hsoc | ⟨-, hdials⟩
      · exact Or.inl (Or.inr ⟨hlt', hs.undestroyed hlt' hlive, hsoc⟩)
      · exact Or.inl (Or.inl hdials)

/-- Every number has one owner, and the clients' numbers are those of sockets. -/
structure Numbered (s : Sys S W) : Prop where
  unique : ∀ soc j side j' side', 0 ≤ soc → s.Owns soc j side → s.Owns soc j' side' → j = j' ∧ side = side'
  nonneg : ∀ j, j < s.jobCount → 0 ≤ (s.jobs j).inp.soc

theorem Numbered.step (h : Numbered s) (hs : Step s l s') (hkernel : s.kernel l) : Numbered s' where
  unique soc j side j' side' hsoc howns howns' := by
    -- A number that the kernel gives had no owner before.
    have hfresh : (l = .accept soc ∨ ∃ t b, l = .connect t soc b) → ∀ j side, ¬s.Owns soc j side := by
      rintro (rfl | ⟨t, b, rfl⟩) j side howns
      · exact hkernel.2 (isOpen_of_owns howns)
      · rcases hkernel with ⟨-, hopen⟩ | ⟨rfl, -⟩
        · exact hopen (isOpen_of_owns howns)
        · exact absurd hsoc (by decide)
    rcases hs.owns howns with hold | ⟨hl, rfl, rfl⟩ | ⟨t, b, hl, hsched, rfl⟩
    · rcases hs.owns howns' with hold' | ⟨hl, -, -⟩ | ⟨t, b, hl, -, -⟩
      · exact h.unique soc j side j' side' hsoc hold hold'
      · exact absurd hold (hfresh (Or.inl hl) j side)
      · exact absurd hold (hfresh (Or.inr ⟨t, b, hl⟩) j side)
    · rcases hs.owns howns' with hold' | ⟨-, rfl, rfl⟩ | ⟨t, b, hl', -, -⟩
      · exact absurd hold' (hfresh (Or.inl hl) j' side')
      · exact ⟨rfl, rfl⟩
      · rw [hl] at hl'
        cases hl'
    · rcases hs.owns howns' with hold' | ⟨hl', -, -⟩ | ⟨t', b', hl', hsched', rfl⟩
      · exact absurd hold' (hfresh (Or.inr ⟨t, b, hl⟩) j' side')
      · rw [hl] at hl'
        cases hl'
      · rw [hl] at hl'
        cases hl'
        rw [hsched] at hsched'
        cases hsched'
        exact ⟨rfl, rfl⟩
  nonneg j hlt := by
    by_cases hbefore : j < s.jobCount
    · have hsoc := h.nonneg j hbefore
      cases hs.links j with
      | same h =>
        have heq : (s'.jobs j).inp = (s.jobs j).inp := Option.some.inj (h .client)
        rwa [heq]
      | accept le _ => exact absurd hbefore (Nat.not_lt.mpr le)
      | connect _ _ inp _ => rwa [inp]
      | @setShutdown w caller side _ _ job _ =>
        have heq := modify_soc (f := .setShutdown) (s.jobs j) (fun _ => rfl) side .client
        rw [← job] at heq
        rwa [show (s'.jobs j).inp.soc = (s.jobs j).inp.soc from Option.some.inj heq]
      | @issue w caller side _ _ job =>
        have heq := modify_soc (s.jobs j) Connection.issue_soc side.other .client
        rw [← job] at heq
        rwa [show (s'.jobs j).inp.soc = (s.jobs j).inp.soc from Option.some.inj heq]
    · rcases hs.accepts with hcount | ⟨soc, p, id, rfl, hjobs, hcount⟩
      · omega
      · have hj : j = s.jobCount := by omega
        rw [hjobs, hj, Function.update_self]
        exact hkernel.1

theorem numbered_of_run (run : (system S W).Run xs s) (hkernel : Lts.Meets Sys.kernel xs) : Numbered s := by
  refine run.invariant (P := Numbered) hkernel ?_ fun _ h hok hn => h.step (next_step hn).2 hok
  refine ⟨fun soc j side j' side' _ howns _ => ?_, fun j hlt => absurd hlt (Nat.not_lt_zero j)⟩
  cases side with
  | client => exact absurd howns.1 (Nat.not_lt_zero j)
  | server =>
    rcases howns with (⟨cb, hcb, hd⟩ | ⟨task, htask, -⟩ | ⟨w, hd⟩) | ⟨hlt, -⟩
    · rcases List.mem_pair.mp hcb with rfl | rfl <;> cases hd
    · cases htask
    · cases hd
    · exact absurd hlt (Nat.not_lt_zero j)

/-! ### Numbers and sides -/

def Side.name : Side → String
  | client => "client"
  | server => "server"

section Sides
variable {r : PipeJob} {c : Connection}

omit [Fintype S] [Fintype W] [DecidableEq S] [DecidableEq W]

theorem otherSocket_eq (hout : r.out = some c) (hne : r.inp.soc ≠ c.soc) (side : Side) :
    r.otherSocket (r.soc side) = r.soc side.other := by
  cases side <;> simp [PipeJob.otherSocket, PipeJob.soc, PipeJob.connection, Side.other, hout, hne, hne.symm]

theorem which_eq (hout : r.out = some c) (hne : r.inp.soc ≠ c.soc) (side : Side) : r.which (r.soc side) = side.name := by
  cases side <;> simp [PipeJob.which, PipeJob.soc, PipeJob.connection, Side.name, hout, hne]

/-- `ShutdownOther` by numbers is `SetShutdown` on one side and `Shutdown` on the other. -/
theorem shutdownOther_eq (hout : r.out = some c) (hne : r.inp.soc ≠ c.soc) (side : Side) :
    r.shutdownOther (r.soc side) = some ((r.modify .setShutdown side).modify .issue side.other) := by
  cases side <;>
    simp [PipeJob.shutdownOther, PipeJob.soc, PipeJob.connection, PipeJob.modify, Side.other, hout, hne, hne.symm]

end Sides

/-- Where a job has both connections, they have different numbers. -/
theorem Numbered.soc_ne (h : Numbered s) (run : (system S W).Run xs s) (hreaches : s.Reaches j) {c : Connection}
    (hout : (s.jobs j).out = some c) : (s.jobs j).inp.soc ≠ c.soc := by
  intro heq
  have hlt := lt_of_reaches run hreaches
  have hlive := not_destroyed_of_reaches run hreaches
  have hserver : s.Owns c.soc j .server := Or.inr ⟨hlt, hlive, by rw [hout]; rfl⟩
  have hsides := h.unique c.soc j .client j .server (heq ▸ h.nonneg j hlt) ⟨hlt, hlive, heq⟩ hserver
  cases hsides.2

/-- Where the kernel gives only numbers that are not in use, the number of a socket tells the job and the side that it
    belongs to. So `Pipe` sends to the other socket of the job that it reads from, and `ShutdownOther` finds the socket
    that is not its argument, or none if there is none yet, and dereferences no null pointer. -/
theorem sockets_by_number (run : (system S W).Run xs s) (hkernel : Lts.Meets Sys.kernel xs) :
    (∀ soc j side j' side', 0 ≤ soc → s.Owns soc j side → s.Owns soc j' side' → j = j' ∧ side = side') ∧
    (∀ w j side, s.work w = .piping j side →
      (s.jobs j).otherSocket ((s.jobs j).soc side) = (s.jobs j).soc side.other ∧
        (s.jobs j).which ((s.jobs j).soc side) = side.name) ∧
    ∀ w caller j side, s.work w = .shutOther caller j side → (s.jobs j).shutdownOther ((s.jobs j).soc side) =
      some (if ((s.jobs j).connection side.other).isNone then s.jobs j
        else ((s.jobs j).modify .setShutdown side).modify .issue side.other) := by
  have numbered := numbered_of_run run hkernel
  have hreaches : ∀ {w j}, (s.work w).job = some j → s.Reaches j := fun hw => Or.inr (Or.inr (Or.inr (Or.inr ⟨_, hw⟩)))
  refine ⟨numbered.unique, fun w j side hw => ?_, fun w caller j side hw => ?_⟩
  · have hj : s.Reaches j := hreaches (w := w) (by rw [hw]; rfl)
    obtain ⟨c, hout⟩ := Option.ne_none_iff_exists'.mp (out_of_linked run (.work (s.work w)) j ⟨w, rfl⟩ (by rw [hw]; rfl))
    have hne := numbered.soc_ne run hj hout
    exact ⟨otherSocket_eq hout hne side, which_eq hout hne side⟩
  · have hj : s.Reaches j := hreaches (w := w) (by rw [hw]; rfl)
    cases hout : (s.jobs j).out with
    | some c =>
      have hsome : ((s.jobs j).connection side.other).isNone = false := by
        cases side
        · simp [PipeJob.connection, Side.other, hout]
        · rfl
      rw [hsome, shutdownOther_eq hout (numbered.soc_ne run hj hout)]
      rfl
    | none =>
      -- Only the callback for a client that has gone comes here before there is a connection to the server.
      have hclosed : caller = .cliClosed ∧ side = .client := by
        by_contra hnot
        have hlinked : Place.linked (.work (s.work w)) = some j := by
          rw [hw]
          exact if_neg hnot
        exact out_of_linked run (.work (s.work w)) j ⟨w, rfl⟩ hlinked hout
      obtain ⟨-, rfl⟩ := hclosed
      simp [PipeJob.shutdownOther, PipeJob.soc, PipeJob.connection, Side.other, hout]

/-- No connection to the server is made, and the job ends when its client has been shut down. -/
def failsToConnect : List (Label Unit Unit) :=
  [.wait [.listen 0], .invoke true false 0, .accept 5, .accepted, .finish, .take () 0, .schedule (), .schedule (),
    .connect () 6 false, .schedule (), .schedule (), .schedule (), .start (), .work (), .work (), .work (),
    .wait [.pipe 0 .client], .invoke false false 0, .finish, .start (), .work (), .work (), .work (), .destroy 0]

/-- The next client gets the number of the first one, and there is no socket for its server. -/
theorem sockets_by_number_reused : ∃ xs s, (system Unit Unit).Run xs s ∧ (s.jobs 0).destroyed = true ∧
    (s.jobs 0).inp.soc = 5 ∧ (s.jobs 1).inp.soc = 5 ∧ s.work () = .shutOther .connect 1 .server ∧
    ∃ r, (s.jobs 1).shutdownOther ((s.jobs 1).soc .server) = some r := by
  obtain ⟨xs, s, run, -, hs⟩ := Lts.run_of_exec_any ((system Unit Unit).restrict Sys.kernel)
    (failsToConnect ++ [.wait [.listen 0], .invoke true false 0, .accept 5, .accepted, .finish, .take () 1, .schedule (),
      .schedule (), .connect () (-1) false, .start (), .work ()])
    (fun s => decide ((s.jobs 0).destroyed = true ∧ (s.jobs 0).inp.soc = 5 ∧ (s.jobs 1).inp.soc = 5 ∧
      s.work () = .shutOther .connect 1 .server)) (by decide)
  obtain ⟨run, hkernel⟩ := run.of_restrict
  obtain ⟨hdestroyed, hsoc, hsoc', hwork⟩ := of_decide_eq_true hs
  exact ⟨xs, s, run, hdestroyed, hsoc, hsoc', hwork, _, (sockets_by_number run hkernel).2.2 () .connect 1 .server hwork⟩

end Dans.ProxyJobs
