import Dans.Theorems.Alone

/-! The gates `_not_empty_mutexes`. A gate that is closed is opened again only by the `Dequeue` that
    closed it, or by an operation that finds the list empty: this module says when a list that holds
    jobs, or a released queue, keeps its gate passable, and what shuts it. -/

namespace Dans.MultiQueue

variable {T : Type} (q : MultiQueue T) (job : Job T) (p : Priority)

/-! ### Gates and flags after the sections -/

theorem insertNode_notEmpty : (q.insertNode job).notEmpty =
    if q.priorityQs job.priority = [] then Function.update q.notEmpty job.priority true else q.notEmpty := by
  by_cases h : q.priorityQs job.priority = [] <;> simp [insertNode, openGate, h]

@[simp] theorem insertNode_releaseOne : (q.insertNode job).releaseOne = q.releaseOne := by
  unfold insertNode
  dsimp only
  split <;> rfl

@[simp] theorem insertNode_released : (q.insertNode job).released = q.released := by
  unfold insertNode
  dsimp only
  split <;> rfl

theorem releaseOneAt_notEmpty : (q.releaseOneAt p).notEmpty =
    if q.priorityQs p = [] then Function.update q.notEmpty p true else q.notEmpty := by
  by_cases h : q.priorityQs p = [] <;> simp [releaseOneAt, openGate, h]

theorem releaseOneAt_releaseOne : (q.releaseOneAt p).releaseOne =
    if q.priorityQs p = [] then Function.update q.releaseOne p true else q.releaseOne := by
  by_cases h : q.priorityQs p = [] <;> simp [releaseOneAt, openGate, h]

theorem insertNode_opened {p' : Priority} (h : q.notEmpty p' = true) : (q.insertNode job).notEmpty p' = true := by
  rw [insertNode_notEmpty]
  split
  · by_cases hp : p' = job.priority <;> simp [hp, h]
  · exact h

theorem releaseOneAt_opened {p' : Priority} (h : q.notEmpty p' = true) : (q.releaseOneAt p).notEmpty p' = true := by
  rw [releaseOneAt_notEmpty]
  split
  · by_cases hp : p' = p <;> simp [hp, h]
  · exact h

theorem releaseQueues_opened {p' : Priority} (h : q.notEmpty p' = true) : q.releaseQueues.notEmpty p' = true := by
  simp [releaseQueues, h]

variable {q p}

theorem popNode_opened {q' : MultiQueue T} {n : Node} (popped : q.popNode p = .ok (n, q')) {p' : Priority}
    (h : q.notEmpty p' = true) : q'.notEmpty p' = true := by
  obtain ⟨rest, -, -, -, -, -, -, -, hgate⟩ := popNode_ok popped
  rw [hgate]
  split
  · exact h
  · by_cases hp : p' = p <;> simp [hp, h]

theorem dequeue_closed (hp : p ≤ q.maxPrio) (hgate : q.notEmpty p = false) : q.dequeue p = .blocked q := by
  simp [dequeue, dequeueTurn, hp, hgate]

/-- A `Dequeue` that finds its gate open and no flag takes the head of its list, and opens the gate again if jobs are
    left. -/
theorem Valid.dequeue_head (h : q.Valid) (hp : p ≤ q.maxPrio) (hgate : q.notEmpty p = true)
    (hne : q.priorityQs p ≠ []) (hflag : q.releaseOne p = false) :
    ∃ q', q.dequeue p = .done q' (.job (q.jobs p).head?) ∧ q'.Valid ∧ q'.maxPrio = q.maxPrio ∧
      q'.priorityQs p = (q.priorityQs p).tail ∧ (q'.notEmpty p = true ↔ q'.priorityQs p ≠ []) := by
  have hclose : (q.closeGate p).Valid := h.congr rfl rfl rfl rfl
  obtain ⟨n, q₁, job, q₂, hpop, htake, hvalid, hjobs⟩ := hclose.pop hne
  have hempty : (q.priorityQs p).isEmpty = false := by simpa using hne
  have hhead : (q.jobs p).head? = some job := by
    have hsame : (q.closeGate p).jobs = q.jobs := jobs_congr rfl rfl
    obtain ⟨rest, hrest, -⟩ := hsame ▸ hjobs
    simp [hrest]
  obtain ⟨rest, hlist, hlists, -, -, hmax, -, -, hopen⟩ := popNode_ok hpop
  obtain ⟨-, -, -, -, -, -, -, -, -, hlists', -⟩ := takeEntry_ok htake
  have hrest : q₂.priorityQs p = rest := by rw [hlists', hlists, Function.update_self]
  have hlist : q.priorityQs p = n :: rest := hlist
  refine ⟨q₂, ?_, hvalid, (takeEntry_gates htake).maxPrio.trans hmax, by rw [hrest, hlist, List.tail_cons], ?_⟩
  · simp [dequeue, MultiQueue.dequeueTurn, hp, hgate, hflag, hempty, hpop, htake, hhead]
  · rw [hrest, (takeEntry_gates htake).notEmpty, hopen]
    by_cases hnil : rest = [] <;> simp [hnil, closeGate]

theorem dequeue_flagged (hp : p ≤ q.maxPrio) (hgate : q.notEmpty p = true) (hflag : q.releaseOne p = true) :
    q.dequeue p = .done ((q.closeGate p).clearReleaseOne p) (.job none) := by
  simp [dequeue, dequeueTurn, hp, hgate, hflag]

theorem Valid.dequeue_open (h : q.Valid) (hp : p ≤ q.maxPrio) (hgate : q.notEmpty p = true)
    (hne : q.priorityQs p ≠ []) : ∃ q' ret, q.dequeue p = .done q' (.job ret) := by
  by_cases hflag : q.releaseOne p = true
  · exact ⟨_, _, dequeue_flagged hp hgate hflag⟩
  · obtain ⟨q', hdeq, -⟩ := h.dequeue_head hp hgate hne (Bool.eq_false_of_not_eq_true hflag)
    exact ⟨q', _, hdeq⟩

/-! ### `Dequeue` again and again -/

/-- `n` calls of `Dequeue(p)` in a row: each returns the head of the list, or `nullptr` if there is none. -/
def Serves (p : Priority) : Nat → MultiQueue T → Prop
  | 0, _ => True
  | n + 1, q => ∃ q', q.dequeue p = .done q' (.job (q.jobs p).head?) ∧ Serves p n q'

/-- Nothing is left in the list of a released queue, its gate is open and nobody is to be sent away. -/
structure Drained (q : MultiQueue T) (p : Priority) : Prop where
  empty : q.priorityQs p = []
  opened : q.notEmpty p = true
  unflagged : q.releaseOne p = false

theorem Drained.serves (h : q.Drained p) (hp : p ≤ q.maxPrio) (hrel : q.released = true) (n : Nat) : q.Serves p n := by
  induction n generalizing q with
  | zero => trivial
  | succ n ih =>
    have hhead : (q.jobs p).head? = none := by simp [jobs, h.empty]
    refine ⟨(q.closeGate p).openGate p, ?_, ih ⟨h.empty, by simp [openGate], h.unflagged⟩ hp hrel⟩
    rw [hhead]
    simp [dequeue, dequeueTurn, hp, h.opened, h.unflagged, h.empty, hrel]

theorem not_serves_of_closed (hp : p ≤ q.maxPrio) (hgate : q.notEmpty p = false) (n : Nat) : ¬q.Serves p (n + 1) := by
  rintro ⟨q', hdeq, -⟩
  rw [dequeue_closed hp hgate] at hdeq
  cases hdeq

/-- The call that takes the last job leaves the gate closed. -/
theorem Valid.not_serves_of_ne (h : q.Valid) (hp : p ≤ q.maxPrio) (hne : q.priorityQs p ≠ []) :
    ¬q.Serves p ((q.priorityQs p).length + 1) := by
  generalize hlen : (q.priorityQs p).length = m
  induction m generalizing q with
  | zero => exact absurd (List.eq_nil_of_length_eq_zero hlen) hne
  | succ m ih =>
    intro hserves
    have hgate : q.notEmpty p = true := by
      by_contra hclosed
      exact not_serves_of_closed hp (Bool.eq_false_of_not_eq_true hclosed) _ hserves
    obtain ⟨q', hdeq, hrest⟩ := hserves
    by_cases hflag : q.releaseOne p = true
    · -- It would be sent away although there is a job.
      obtain ⟨n, rest, hlist⟩ := List.exists_cons_of_ne_nil hne
      obtain ⟨job, hjob, -⟩ := jobAt_of_mem h.inStep (by rw [hlist]; exact List.mem_cons_self)
      rw [dequeue_flagged hp hgate hflag] at hdeq
      simp [jobs, hlist, hjob] at hdeq
    · obtain ⟨q'', hdeq', hvalid, hmax, htail, hopen⟩ :=
        h.dequeue_head hp hgate hne (Bool.eq_false_of_not_eq_true hflag)
      obtain rfl : q'' = q' := (Outcome.done.inj (hdeq'.symm.trans hdeq)).1
      have hp' : p ≤ q''.maxPrio := hmax ▸ hp
      by_cases hnil : q''.priorityQs p = []
      · exact not_serves_of_closed hp' (Bool.eq_false_of_not_eq_true fun htrue => hopen.mp htrue hnil) _ hrest
      · exact ih hvalid hp' hnil (by rw [htail, List.length_tail, hlen, Nat.add_sub_cancel]) hrest

/-- Only a drained list serves all callers of a released queue for good. -/
theorem Valid.serves_iff (h : q.Valid) (hp : p ≤ q.maxPrio) (hrel : q.released = true) :
    (∀ n, q.Serves p n) ↔ q.Drained p := by
  refine ⟨fun hserves => ?_, fun hdrained => hdrained.serves hp hrel⟩
  have hempty : q.priorityQs p = [] := by
    by_contra hne
    exact h.not_serves_of_ne hp hne (hserves _)
  have hgate : q.notEmpty p = true := by
    by_contra hclosed
    exact not_serves_of_closed hp (Bool.eq_false_of_not_eq_true hclosed) 0 (hserves 1)
  refine ⟨hempty, hgate, ?_⟩
  by_contra hflag
  -- The first call would find the flag and leave the gate closed.
  obtain ⟨q', hdeq, hrest⟩ := hserves 2
  have hfirst := dequeue_flagged hp hgate (Bool.eq_true_of_not_eq_false hflag)
  obtain rfl : (q.closeGate p).clearReleaseOne p = q' := (Outcome.done.inj (hfirst.symm.trans hdeq)).1
  exact not_serves_of_closed (q := (q.closeGate p).clearReleaseOne p) hp (by simp [closeGate, clearReleaseOne]) 0 hrest

end Dans.MultiQueue

namespace Dans.Threads
open MultiQueue

variable {Tid T : Type}

/-! ### Passable gates -/

/-- The priority whose gate the thread has closed, until it goes back to the gate, returns or has popped. -/
def Pc.holds : Pc T → Option Priority
  | deqFlag p | deqPurge p | deqTest p | deqQueue p | deqPop p => some p
  | _ => none

/-- The gate is open, or a `Dequeue` has closed it that has not made up its mind. -/
def Sys.Passable (s : Sys Tid T) (p : Priority) : Prop := s.q.notEmpty p = true ∨ ∃ t, (s.pc t).holds = some p

instance [Fintype Tid] (s : Sys Tid T) (p : Priority) : Decidable (s.Passable p) :=
  inferInstanceAs (Decidable (s.q.notEmpty p = true ∨ ∃ t, (s.pc t).holds = some p))

/-- The steps after which a gate may be closed with nobody to open it: a `Dequeue` finds the flag of
    `ReleaseOne`, or an empty list before `ReleaseQueues`, or takes the last job. -/
inductive Shuts (s : Sys Tid T) (p : Priority) : Label Tid T → Prop where
  | flag {t : Tid} (pc : s.pc t = .deqFlag p) (flagged : s.q.releaseOne p = true) : Shuts s p (.step t)
  | again {t : Tid} (pc : s.pc t = .deqTest p) (empty : s.q.priorityQs p = []) (released : s.q.released = false) :
      Shuts s p (.step t)
  | last {t : Tid} {n : Node} (pc : s.pc t = .deqPop p) (one : s.q.priorityQs p = [n]) : Shuts s p (.step t)

theorem Goes.holds {s : Sys Tid T} {c c' : Pc T} (h : Goes s c c') {p : Priority} (hc : c.holds = some p) :
    c'.holds = some p ∨ c = .deqTest p ∧ s.q.priorityQs p = [] ∧ s.q.released = false := by
  cases h <;> simp_all [Pc.holds]

theorem passable_of_quiet {s : Sys Tid T} {p : Priority} (h : s.Passable p) (quiet : s.Quiet) : s.q.notEmpty p = true := by
  refine h.resolve_right ?_
  rintro ⟨t, ht⟩
  have hidle := quiet t
  cases hpc : s.pc t <;> simp [hpc, Pc.isIdle, Pc.holds] at hidle ht

variable [DecidableEq Tid] {s s' : Sys Tid T} {l : Label Tid T} {p : Priority}

theorem Sys.Passable.become (h : s.Passable p) {t : Tid} {q : MultiQueue T} {c : Pc T}
    (hgate : s.q.notEmpty p = true → q.notEmpty p = true ∨ c.holds = some p)
    (hhold : (s.pc t).holds = some p → q.notEmpty p = true ∨ c.holds = some p) : (s.become t q c).Passable p := by
  have hself : q.notEmpty p = true ∨ c.holds = some p → (s.become t q c).Passable p :=
    Or.imp_right fun hc => ⟨t, by simpa using hc⟩
  rcases h with h | ⟨u, hu⟩
  · exact hself (hgate h)
  · by_cases hut : u = t
    · exact hself (hhold (hut ▸ hu))
    · refine Or.inr ⟨u, ?_⟩
      rw [Sys.become]
      dsimp only
      rwa [Function.update_of_ne hut]

theorem Sys.Passable.effect (h : s.Passable p) (he : Effect s l s') : s'.Passable p ∨ Shuts s p l := by
  cases he with
  | @call t op idle _ =>
    refine Or.inl (h.become (q := s.q) Or.inl fun hc => ?_)
    cases hpc : s.pc t <;> simp [hpc, Pc.isIdle, Pc.holds] at idle hc
  | @move t c c' pc goes =>
    by_cases hshut : s.pc t = .deqTest p ∧ s.q.priorityQs p = [] ∧ s.q.released = false
    · exact Or.inr (.again hshut.1 hshut.2.1 hshut.2.2)
    · exact Or.inl (h.become (q := s.q) Or.inl fun hc => Or.inr ((goes.holds (pc ▸ hc)).resolve_right (pc ▸ hshut)))
  | insert pc => exact Or.inl (h.become (fun ho => Or.inl (insertNode_opened _ _ ho)) (by simp [pc, Pc.holds]))
  | @entry t job iter pc =>
    have hgate := (insertEntry_gates s.q job iter).notEmpty
    exact Or.inl (h.become (fun ho => Or.inl (by rwa [hgate])) (by simp [pc, Pc.holds]))
  | @gate t p' pc _ =>
    refine Or.inl (h.become (fun ho => ?_) (by simp [pc, Pc.holds]))
    by_cases hp : p' = p
    · exact Or.inr (by simp [Pc.holds, hp])
    · exact Or.inl (by simp [closeGate, Function.update_of_ne (Ne.symm hp), ho])
  | @flag t p' pc flagged =>
    by_cases hp : p' = p
    · exact Or.inr (.flag (hp ▸ pc) (hp ▸ flagged))
    · exact Or.inl (h.become Or.inl fun hc => by simp [pc, Pc.holds, hp] at hc)
  | @released t p' pc _ _ =>
    refine Or.inl (h.become (fun ho => Or.inl ?_) fun hc => Or.inl ?_)
    · by_cases hp : p = p' <;> simp [openGate, hp, ho]
    · have hp : p' = p := by simpa [pc, Pc.holds] using hc
      simp [openGate, hp]
  | @pop t p' n q pc popped =>
    by_cases hlast : p' = p ∧ s.q.priorityQs p = [n]
    · exact Or.inr (.last (hlast.1 ▸ pc) hlast.2)
    · refine Or.inl (h.become (fun ho => Or.inl (popNode_opened popped ho)) fun hc => Or.inl ?_)
      have hp : p' = p := by simpa [pc, Pc.holds] using hc
      obtain ⟨rest, hlist, -, -, -, -, -, -, hgate⟩ := popNode_ok popped
      have hrest : rest ≠ [] := fun hnil => hlast ⟨hp, by rw [← hp, hlist, hnil]⟩
      rw [hgate, if_neg hrest, hp]
      simp
  | take pc taken =>
    have hgate := (takeEntry_gates taken).notEmpty
    exact Or.inl (h.become (fun ho => Or.inl (by rwa [hgate])) (by simp [pc, Pc.holds]))
  | purge pc purged =>
    have hgate := (purge_gates purged).notEmpty
    exact Or.inl (h.become (fun ho => Or.inl (by rwa [hgate])) (by simp [pc, Pc.holds]))
  | one pc => exact Or.inl (h.become (fun ho => Or.inl (releaseOneAt_opened _ _ ho)) (by simp [pc, Pc.holds]))
  | all pc => exact Or.inl (h.become (fun ho => Or.inl (releaseQueues_opened _ ho)) (by simp [pc, Pc.holds]))
  | fail _ _ | callFail _ => exact Or.inl h

/-! ### Lists that hold jobs -/

/-- A list that holds a job held one before, or got its first one. -/
theorem Effect.filled (he : Effect s l s') (hand : HandOver s) (locks : Locks s) (hne : s'.q.priorityQs p ≠ []) :
    s.q.priorityQs p ≠ [] ∨
      ∃ t job, l = .step t ∧ s.pc t = .enqInsert job ∧ job.priority = p ∧ s'.q = s.q.insertNode job := by
  cases he with
  | @insert t job pc =>
    by_cases hp : p = job.priority
    · exact Or.inr ⟨t, job, rfl, pc, hp.symm, rfl⟩
    · rw [become_q, insertNode_priorityQs, Function.update_of_ne hp] at hne
      exact Or.inl hne
  | @pop t p' n q pc popped =>
    obtain ⟨rest, hlist, hlists, -⟩ := popNode_ok popped
    refine Or.inl fun hempty => ?_
    by_cases hp : p = p'
    · simp [← hp, hempty] at hlist
    · simp [hlists, Function.update_of_ne hp, hempty] at hne
  | take pc taken =>
    obtain ⟨-, -, -, -, -, -, -, -, -, hlists, -⟩ := takeEntry_ok taken
    exact Or.inl (by simpa [hlists] using hne)
  | purge pc purged =>
    refine Or.inl fun hempty => ?_
    simp [hand.purge_lists locks pc purged p, hempty] at hne
  | entry pc | one pc => exact Or.inl (by simpa using hne)
  | call _ _ | move _ _ | gate _ _ | flag _ _ | released _ _ _ | all _ | fail _ _ | callFail _ => exact Or.inl hne

theorem Effect.listed (he : Effect s l s') (hand : HandOver s) (locks : Locks s) (hne : s'.q.priorityQs p ≠ []) :
    s.q.priorityQs p ≠ [] ∨ s'.q.notEmpty p = true := by
  rcases he.filled hand locks hne with hbefore | ⟨t, job, -, -, rfl, hq⟩
  · exact Or.inl hbefore
  · by_cases hempty : s.q.priorityQs job.priority = []
    · exact Or.inr (by simp [hq, insertNode_notEmpty, hempty])
    · exact Or.inl hempty

theorem Effect.pop_last {t : Tid} {n : Node} (he : Effect s (.step t) s') (pc : s.pc t = .deqPop p)
    (one : s.q.priorityQs p = [n]) : s'.q.priorityQs p = [] := by
  cases he with
  | pop pc' popped =>
    rw [pc] at pc'
    cases pc'
    obtain ⟨rest, hlist, hlists, -⟩ := popNode_ok popped
    rw [one] at hlist
    cases hlist
    simp [hlists]
  | move pc' goes =>
    rw [pc] at pc'
    subst pc'
    cases goes
  | fail pc' faults =>
    rw [pc] at pc'
    subst pc'
    cases faults with
    | deqPop herr => rw [(popNode_error herr).1] at one; cases one
  | insert pc' | entry pc' | gate pc' _ | flag pc' _ | released pc' _ _ | take pc' _ | purge pc' _ | one pc' | all pc' =>
    rw [pc] at pc'
    cases pc'

/-- No `Dequeue` finds the flag of `ReleaseOne` while its list holds a job. -/
def sparesFlag (s : Sys Tid T) : Label Tid T → Bool
  | .call _ _ => true
  | .step t =>
    match s.pc t with
    | .deqFlag p => !s.q.releaseOne p || (s.q.priorityQs p).isEmpty
    | _ => true

theorem passable_effect (h : ∀ p, s.q.priorityQs p ≠ [] → s.Passable p) (hand : HandOver s) (locks : Locks s)
    (hok : sparesFlag s l = true) (he : Effect s l s') (hne : s'.q.priorityQs p ≠ []) : s'.Passable p := by
  rcases he.listed hand locks hne with hbefore | hopen
  · refine ((h p hbefore).effect he).resolve_right ?_
    rintro (@⟨t, pc, flagged⟩ | ⟨-, hempty, -⟩ | ⟨pc, one⟩)
    · simp [sparesFlag, pc, flagged, hbefore] at hok
    · exact hbefore hempty
    · exact hne (he.pop_last pc one)
  · exact Or.inl hopen

variable [Fintype Tid] {maxPriority : Priority} {xs : List (Sys Tid T × Label Tid T)}

/-- No job is stranded behind a closed gate, as long as no `Dequeue` is sent away by `ReleaseOne` while
    its list holds a job: then a `Dequeue` that follows does not block. -/
theorem gate_open_of_spares (run : (system Tid T maxPriority).Run xs s)
    (hok : Lts.Meets (fun s l => sparesFlag s l = true) xs) (quiet : s.Quiet) (hne : s.q.priorityQs p ≠ []) :
    s.q.notEmpty p = true ∧ ∃ q ret, s.q.dequeue p = .done q (.job ret) := by
  have hpass : ∀ p, s.q.priorityQs p ≠ [] → s.Passable p := by
    refine run.invariant (P := fun s => ∀ p, s.q.priorityQs p ≠ [] → s.Passable p) hok ?_ ?_
    · exact fun p hne => absurd rfl hne
    · intro xs s l t run h hok hn p
      exact passable_effect h (handOver_of_run run) (locks_of_run run) hok (next_effect hn)
  have hopen := passable_of_quiet (hpass p hne) quiet
  refine ⟨hopen, (valid_of_quiet run quiet).dequeue_open ?_ hopen hne⟩
  by_contra hp
  exact hne ((bounded_of_run run).1.lists p (Nat.lt_of_not_le hp))

/-- A job is enqueued and nobody has been released: the next `Dequeue` does not block. -/
theorem gate_open_of_spares_one : ∃ xs s, (system (Fin 1) Nat 1).Run xs s ∧ s.Quiet ∧ s.q.priorityQs 0 ≠ [] ∧
    s.q.notEmpty 0 = true ∧ ∃ q ret, s.q.dequeue 0 = .done q (.job ret) := by
  obtain ⟨xs, s, run, -, hs⟩ := Lts.run_of_exec_any
    ((system (Fin 1) Nat 1).restrict fun s l => sparesFlag s l = true)
    (.call 0 (.enqueue ⟨7, 0, 0, 5⟩) :: List.replicate 5 (.step 0))
    (fun s => decide (s.Quiet ∧ s.q.priorityQs 0 ≠ [])) (by decide)
  obtain ⟨run, hok⟩ := run.of_restrict
  obtain ⟨quiet, hne⟩ := of_decide_eq_true hs
  exact ⟨xs, s, run, quiet, hne, gate_open_of_spares run hok quiet hne⟩

/-- `ReleaseOne` on an empty list, then an `Enqueue`, then a `Dequeue` that returns `nullptr` for the flag:
    the job is in the list, no call is in progress, and the gate is closed. -/
theorem releaseOne_strands_job : ∃ xs s, (system (Fin 1) Nat 1).Run xs s ∧
    xs.map Prod.snd = .call 0 (.releaseOne 0) :: List.replicate 3 (.step 0) ++
      .call 0 (.enqueue ⟨7, 0, 0, 5⟩) :: List.replicate 5 (.step 0) ++ .call 0 (.dequeue 0) :: List.replicate 2 (.step 0) ∧
    s.Quiet ∧ s.pc 0 = .idle (some (.job none)) ∧ s.q.priorityQs 0 ≠ [] ∧ s.q.notEmpty 0 = false ∧
    s.q.dequeue 0 = .blocked s.q := by
  obtain ⟨xs, s, run, hls, hs⟩ := Lts.run_of_exec_any (system (Fin 1) Nat 1)
    (.call 0 (.releaseOne 0) :: List.replicate 3 (.step 0) ++
      .call 0 (.enqueue ⟨7, 0, 0, 5⟩) :: List.replicate 5 (.step 0) ++ .call 0 (.dequeue 0) :: List.replicate 2 (.step 0))
    (fun s => decide (s.Quiet ∧ s.pc 0 = .idle (some (.job none)) ∧ s.q.priorityQs 0 ≠ [] ∧ s.q.notEmpty 0 = false))
    (by decide)
  obtain ⟨quiet, hpc, hne, hclosed⟩ := of_decide_eq_true hs
  exact ⟨xs, s, run, hls, quiet, hpc, hne, hclosed, dequeue_closed (Nat.zero_le _) hclosed⟩

/-! ### Released queues -/

/-- `ReleaseQueues` finds list `p` empty and its flag unset; after it nothing goes into the list, and no `ReleaseOne(p)`
    sets the flag. -/
def lasts (p : Priority) (s : Sys Tid T) : Label Tid T → Bool
  | .call _ _ => true
  | .step t =>
    match s.pc t with
    | .allBody => (s.q.priorityQs p).isEmpty && !s.q.releaseOne p
    | .enqInsert job => !s.q.released || job.priority != p
    | .oneBody p' => !s.q.released || p' != p
    | _ => true

omit [Fintype Tid] in
/-- Only `ReleaseOne` sets a flag. -/
theorem Effect.flagged (he : Effect s l s') (hflag : s'.q.releaseOne p = true) :
    s.q.releaseOne p = true ∨ ∃ t, l = .step t ∧ s.pc t = .oneBody p := by
  cases he with
  | @one t p' pc =>
    by_cases hp : p = p'
    · exact Or.inr ⟨t, rfl, hp ▸ pc⟩
    · refine Or.inl ?_
      simp only [become_q, releaseOneAt_releaseOne] at hflag
      split at hflag
      · rwa [Function.update_of_ne hp] at hflag
      · exact hflag
  | @flag t p' pc flagged =>
    by_cases hp : p = p'
    · exact Or.inl (hp ▸ flagged)
    · exact Or.inl (by simpa [clearReleaseOne, Function.update_of_ne hp] using hflag)
  | insert pc => exact Or.inl (by simpa using hflag)
  | entry pc => exact Or.inl ((insertEntry_gates _ _ _).releaseOne ▸ hflag)
  | pop pc popped =>
    obtain ⟨-, -, -, -, -, -, -, hsame, -⟩ := popNode_ok popped
    exact Or.inl (hsame ▸ hflag)
  | take pc taken => exact Or.inl ((takeEntry_gates taken).releaseOne ▸ hflag)
  | purge pc purged => exact Or.inl ((purge_gates purged).releaseOne ▸ hflag)
  | call _ _ | move _ _ | gate _ _ | released _ _ _ | all _ | fail _ _ | callFail _ => exact Or.inl hflag

omit [Fintype Tid] in
theorem Effect.released_cases (he : Effect s l s') (hrel : s'.q.released = true) :
    s.q.released = true ∨ ∃ t, l = .step t ∧ s.pc t = .allBody ∧ s'.q = s.q.releaseQueues := by
  cases he with
  | @all t pc => exact Or.inr ⟨t, rfl, pc, rfl⟩
  | insert pc | one pc => exact Or.inl (by simpa using hrel)
  | entry pc => exact Or.inl ((insertEntry_gates _ _ _).released ▸ hrel)
  | pop pc popped =>
    obtain ⟨-, -, -, -, -, -, hsame, -⟩ := popNode_ok popped
    exact Or.inl (hsame ▸ hrel)
  | take pc taken => exact Or.inl ((takeEntry_gates taken).released ▸ hrel)
  | purge pc purged => exact Or.inl ((purge_gates purged).released ▸ hrel)
  | call _ _ | move _ _ | gate _ _ | flag _ _ | released _ _ _ | fail _ _ | callFail _ => exact Or.inl hrel

/-- Once the queue is released, list `p` is empty, its gate is passable and its flag unset. -/
def Lasts (p : Priority) (s : Sys Tid T) : Prop :=
  s.q.released = true → s.q.priorityQs p = [] ∧ s.Passable p ∧ s.q.releaseOne p = false

omit [Fintype Tid] in
theorem Lasts.effect (h : Lasts p s) (hand : HandOver s) (locks : Locks s) (hp : p ≤ s.q.maxPrio)
    (hok : lasts p s l = true) (he : Effect s l s') : Lasts p s' := by
  intro hrel
  rcases he.released_cases hrel with hbefore | ⟨t, rfl, pc, hq⟩
  · obtain ⟨hempty, hpass, hflag⟩ := h hbefore
    refine ⟨?_, (hpass.effect he).resolve_right ?_, ?_⟩
    · by_contra hne
      rcases he.filled hand locks hne with hne | ⟨t, job, rfl, pc, hp, -⟩
      · exact hne hempty
      · simp [lasts, pc, hbefore, hp] at hok
    · rintro (⟨-, flagged⟩ | ⟨-, -, hnot⟩ | ⟨-, one⟩)
      · rw [hflag] at flagged
        cases flagged
      · rw [hbefore] at hnot
        cases hnot
      · rw [hempty] at one
        cases one
    · by_contra hset
      rcases he.flagged (Bool.eq_true_of_not_eq_false hset) with hbad | ⟨t, rfl, pc⟩
      · rw [hflag] at hbad
        cases hbad
      · simp [lasts, pc, hbefore] at hok
  · -- The step is `ReleaseQueues`, which opens the gate of an empty list.
    simp only [lasts, pc, Bool.and_eq_true, List.isEmpty_iff, Bool.not_eq_true'] at hok
    obtain ⟨hempty, hflag⟩ := hok
    rw [hq]
    exact ⟨hempty, Or.inl (by simp [hq, releaseQueues, hp, hempty]), hflag⟩

/-- Once `ReleaseQueues` has completed, and while no call is in progress, any number of calls of `Dequeue(p)` in a row
    return the head of the list or `nullptr` exactly if the list is empty, its gate open and its flag unset. This is so in
    every such state of a run in which `ReleaseQueues` finds the list empty and the flag unset and afterwards nothing goes
    into the list and no `ReleaseOne(p)` is made. -/
theorem released_for_good (run : (system Tid T maxPriority).Run xs s) (quiet : s.Quiet) (hrel : s.q.released = true)
    (hp : p ≤ maxPriority) : ((∀ n, s.q.Serves p n) ↔ s.q.Drained p) ∧
      (Lts.Meets (fun s l => lasts p s l = true) xs → ∀ n, s.q.Serves p n) := by
  have hserves : (∀ n, s.q.Serves p n) ↔ s.q.Drained p :=
    (valid_of_quiet run quiet).serves_iff (by rwa [(bounded_of_run run).2]) hrel
  refine ⟨hserves, fun hok => hserves.mpr ?_⟩
  have hlasts : Lasts p s := by
    refine run.invariant (P := Lasts p) hok ?_ ?_
    · intro hrel
      cases hrel
    · intro xs s l t run h hok hn
      exact h.effect (handOver_of_run run) (locks_of_run run) (by rwa [(bounded_of_run run).2]) hok (next_effect hn)
  obtain ⟨hempty, hpass, hflag⟩ := hlasts hrel
  exact ⟨hempty, passable_of_quiet hpass quiet, hflag⟩

/-- A job comes and is taken, then the queues are released and a `Dequeue` returns `nullptr`, as does every other. -/
theorem released_for_good_taken : ∃ xs s, (system (Fin 1) Nat 1).Run xs s ∧ s.Quiet ∧ s.q.released = true ∧
    s.pc 0 = .idle (some (.job none)) ∧ s.q.Drained 0 ∧ ∀ n, s.q.Serves 0 n := by
  obtain ⟨xs, s, run, -, hs⟩ := Lts.run_of_exec_any
    ((system (Fin 1) Nat 1).restrict fun s l => lasts 0 s l = true)
    (.call 0 (.enqueue ⟨7, 0, 0, 5⟩) :: List.replicate 5 (.step 0) ++ .call 0 (.dequeue 0) :: List.replicate 8 (.step 0) ++
      .call 0 .releaseQueues :: List.replicate 2 (.step 0) ++ .call 0 (.dequeue 0) :: List.replicate 4 (.step 0))
    (fun s => decide (s.Quiet ∧ s.q.released = true ∧ s.pc 0 = .idle (some (.job none)))) (by decide)
  obtain ⟨run, hok⟩ := run.of_restrict
  obtain ⟨quiet, hrel, hpc⟩ := of_decide_eq_true hs
  obtain ⟨hiff, hserves⟩ := released_for_good run quiet hrel (Nat.zero_le 1)
  exact ⟨xs, s, run, quiet, hrel, hpc, hiff.mp (hserves hok), hserves hok⟩

/-- A job is enqueued, then the queues are released, then a `Dequeue` returns the job: the gate of the
    empty list stays closed, and the next `Dequeue` blocks. -/
theorem released_queue_blocks : ∃ xs s, (system (Fin 1) Nat 1).Run xs s ∧
    xs.map Prod.snd = .call 0 (.enqueue ⟨7, 0, 0, 5⟩) :: List.replicate 5 (.step 0) ++
      .call 0 .releaseQueues :: List.replicate 2 (.step 0) ++ .call 0 (.dequeue 0) :: List.replicate 8 (.step 0) ∧
    s.Quiet ∧ s.q.released = true ∧ s.pc 0 = .idle (some (.job (some ⟨7, 0, 0, 5⟩))) ∧
    s.q.dequeue 0 = .blocked s.q ∧ ¬s.q.Serves 0 1 := by
  obtain ⟨xs, s, run, hls, hs⟩ := Lts.run_of_exec_any (system (Fin 1) Nat 1)
    (.call 0 (.enqueue ⟨7, 0, 0, 5⟩) :: List.replicate 5 (.step 0) ++
      .call 0 .releaseQueues :: List.replicate 2 (.step 0) ++ .call 0 (.dequeue 0) :: List.replicate 8 (.step 0))
    (fun s => decide (s.Quiet ∧ s.q.released = true ∧ s.pc 0 = .idle (some (.job (some ⟨7, 0, 0, 5⟩))) ∧
      s.q.notEmpty 0 = false)) (by decide)
  obtain ⟨quiet, hrel, hpc, hclosed⟩ := of_decide_eq_true hs
  exact ⟨xs, s, run, hls, quiet, hrel, hpc, dequeue_closed (Nat.zero_le _) hclosed,
    not_serves_of_closed (Nat.zero_le _) hclosed 0⟩

/-! ### Without `ReleaseOne` -/

/-- No `ReleaseOne` is in progress, and none has left its flag. -/
structure NoReleaseOne (s : Sys Tid T) : Prop where
  flags : ∀ p, s.q.releaseOne p = false
  calls : ∀ t p, s.pc t ≠ .oneLock p ∧ s.pc t ≠ .oneQueue p ∧ s.pc t ≠ .oneBody p

/-- The label calls no `ReleaseOne`. -/
def Label.noReleaseOne : Label Tid T → Bool
  | .call _ (.releaseOne _) => false
  | .call _ _ | .step _ => true

omit [Fintype Tid] in
theorem NoReleaseOne.effect (h : NoReleaseOne s) (hok : l.noReleaseOne = true) (he : Effect s l s') : NoReleaseOne s' := by
  refine ⟨fun p => ?_, ?_⟩
  · by_contra hset
    rcases he.flagged (Bool.eq_true_of_not_eq_false hset) with hflag | ⟨t, -, pc⟩
    · rw [h.flags p] at hflag
      cases hflag
    · exact (h.calls t p).2.2 pc
  · have become : ∀ {t q} {c : Pc T}, (∀ p, c ≠ .oneLock p ∧ c ≠ .oneQueue p ∧ c ≠ .oneBody p) →
        ∀ u p, (s.become t q c).pc u ≠ .oneLock p ∧ (s.become t q c).pc u ≠ .oneQueue p ∧
          (s.become t q c).pc u ≠ .oneBody p := by
      intro t q c hc u p
      simp only [Sys.become, Function.update_apply]
      split
      · exact hc p
      · exact h.calls u p
    cases he with
    | @call t op _ _ =>
      refine become fun p => ?_
      cases op with
      | releaseOne p => cases hok
      | _ => simp [Pc.start]
    | @move t c c' pc goes =>
      refine become fun p => ?_
      cases goes with
      | oneLock _ => exact absurd pc (h.calls t _).1
      | oneQueue _ _ => exact absurd pc (h.calls t _).2.1
      | _ => simp
    | fail _ _ | callFail _ => exact h.calls
    | _ => exact become fun p => by simp

theorem noReleaseOne_of_run (run : (system Tid T maxPriority).Run xs s)
    (hok : Lts.Meets (fun _ l => l.noReleaseOne = true) xs) : NoReleaseOne s :=
  run.invariant (P := NoReleaseOne) hok ⟨fun _ => rfl, fun _ _ => by simp [system]⟩ fun _ h hok hn =>
    h.effect hok (next_effect hn)

end Dans.Threads
