import Dans.Theorems.ExecutorSteps

/-! What becomes of the tasks that are submitted to an executor: each is handed to a worker once, in the order in which
    they went into the queue, whatever ids the jobs have got, and a worker starts what it is handed. -/

namespace Dans.Threads
open MultiQueue

variable {Tid T : Type}

/-! ### A queue of one priority that is not purged -/

/-- The calls of an executor: `Enqueue` and `Dequeue` at priority `0`, and `ReleaseQueues`. -/
def plain (_ : Sys Tid T) : Label Tid T → Prop
  | .call _ (.enqueue job) => job.priority = 0
  | .call _ (.dequeue p) => p = 0
  | .call _ .releaseQueues => True
  | .call _ (.purge _) | .call _ (.releaseOne _) => False
  | .step _ => True

/-- The points of these calls. -/
def Pc.Plain : Pc T → Prop
  | idle _ | allLock | allBody => True
  | enqPurge job | enqQueue job | enqInsert job | enqMapLock job _ | enqMap job _ => job.priority = 0
  | deqGate p | deqFlag p | deqPurge p | deqTest p | deqQueue p | deqPop p | deqMapLock p _ | deqMap p _ => p = 0
  | purgeLock _ | purgeBody _ | oneLock _ | oneQueue _ | oneBody _ => False

/-- The job that an `Enqueue` has still to insert. -/
def Pc.toInsert : Pc T → Option (Job T)
  | enqPurge job | enqQueue job | enqInsert job => some job
  | _ => none

theorem plain_callsNoPurge {s : Sys Tid T} {l : Label Tid T} (h : plain s l) : callsNoPurge s l := by
  rintro t id rfl
  exact h

section Steps
variable {s s' : Sys Tid T} {l : Label Tid T}

theorem Goes.plain {c c' : Pc T} (goes : Goes s c c') (h : c.Plain) : c'.Plain := by
  cases goes <;> exact h

variable [DecidableEq Tid]

/-- A step of a call inserts the job that it has still to insert, or leaves it to be inserted. -/
theorem Effect.toInsert {t : Tid} (he : Effect s (.step t) s') :
    (s.pc t).toInsert.toList = (s.inserts (.step t)).map (·.job) ++ (s'.pc t).toInsert.toList := by
  cases he with
  | move pc goes => cases goes <;> simp [Sys.inserts, pc, Sys.goto, Pc.toInsert]
  | fail pc faults => cases faults <;> simp [Sys.inserts, pc, Sys.fail, Pc.toInsert]
  | insert pc | entry pc | gate pc _ | flag pc _ | released pc _ _ | pop pc _ | take pc _ | purge pc _ | one pc | all pc =>
    simp [Sys.inserts, pc, Pc.toInsert]

theorem plain_effect (h : ∀ t, (s.pc t).Plain) (hok : plain s l) (he : Effect s l s') (t : Tid) : (s'.pc t).Plain := by
  have become : ∀ {u q} {c : Pc T}, c.Plain → ((s.become u q c).pc t).Plain := by
    intro u q c hc
    simp only [Sys.become, Function.update_apply]
    split
    · exact hc
    · exact h t
  cases he with
  | @call u op _ _ =>
    refine become ?_
    cases op <;> exact hok
  | @move u c c' pc goes => exact become (goes.plain (pc ▸ h u))
  | @insert u job pc | @gate u p pc _ | @pop u p n q pc _ =>
    have hu := h u
    rw [pc] at hu
    exact become hu
  | entry _ | flag _ _ | released _ _ _ | take _ _ | purge _ _ | one _ | all _ => exact become trivial
  | fail _ _ | callFail _ => exact h t

/-- Among these calls only a `Dequeue` stops the process, when it comes to pop an empty list. -/
theorem Effect.stops {f : Fault} (he : Effect s l s') (hand : HandOver s) (locks : Locks s)
    (hplain : ∀ t, (s.pc t).Plain) (hok : plain s l) (hnone : s.fault = none) (hf : s'.fault = some f) :
    f = .popEmpty ∧ ∃ t p, s.pc t = .deqPop p ∧ s.q.priorityQs p = [] := by
  cases he with
  | @fail t c f pc faults =>
    cases hf
    have ht := hplain t
    rw [pc] at ht
    cases faults with
    | deqPop herr =>
      obtain ⟨hempty, rfl⟩ := popNode_error herr
      exact ⟨rfl, t, _, pc, hempty⟩
    | enqQueue range =>
      have hp : _ = 0 := ht
      exact absurd (hp ▸ Nat.zero_le _) range
    | deqMap herr =>
      obtain ⟨e, q, htake, -⟩ := hand.takeEntry locks pc
      rw [htake] at herr
      cases herr
    | purgeBody _ | oneQueue _ => exact ht.elim
  | callFail range =>
    have hp : _ = 0 := hok
    exact absurd (hp ▸ Nat.zero_le _) range
  | _ => cases hnone.symm.trans hf

variable [Fintype Tid] {xs : List (Sys Tid T × Label Tid T)} {maxPriority : Priority}

theorem plain_of_run (run : (system Tid T maxPriority).Run xs s) (hok : Lts.Meets plain xs) (t : Tid) : (s.pc t).Plain := by
  refine run.invariant (P := fun s => ∀ t, (s.pc t).Plain) hok (fun _ => trivial) (fun _ h hok hn => ?_) t
  exact plain_effect h hok (next_effect hn)

/-- Nothing but a `Dequeue` that pops an empty list stops the process. -/
theorem fault_of_plain (run : (system Tid T maxPriority).Run xs s) (hok : Lts.Meets plain xs) {f : Fault}
    (hf : s.fault = some f) : f = .popEmpty := by
  cases run with
  | init => cases hf
  | step run hn =>
    obtain ⟨hbefore, hlast⟩ := hok.of_append
    exact ((next_effect hn).stops (handOver_of_run run) (locks_of_run run) (plain_of_run run hbefore)
      (hlast _ (List.mem_singleton_self _)) (next_fault hn) hf).1

theorem inserted_plain (run : (system Tid T maxPriority).Run xs s) (hok : Lts.Meets plain xs) :
    ∀ e ∈ inserted xs, e.job.priority = 0 := by
  induction run with
  | init => exact fun e he => by cases he
  | @step xs s t l run hn ih =>
    obtain ⟨hbefore, -⟩ := hok.of_append
    intro e he
    rw [inserted_snoc] at he
    rcases List.mem_append.mp he with he | he
    · exact ih hbefore e he
    · cases l with
      | call _ _ => cases he
      | step u =>
        have hu := plain_of_run run hbefore u
        simp only [Sys.inserts] at he
        split at he
        · next job pc =>
          rw [pc] at hu
          rw [List.mem_singleton.mp he]
          exact hu
        · cases he

/-- All jobs that have gone in, in their order: those handed out, those in hand, those in the list. -/
theorem inserted_of_plain (run : (system Tid T maxPriority).Run xs s) (hok : Lts.Meets plain xs) :
    ∃ hand waiting, inserted xs = handed xs ++ hand ++ waiting ∧ waiting.map Entry.node = s.q.priorityQs 0 ∧
      ∀ n, s.Popped 0 n ↔ n ∈ hand.map Entry.node := by
  obtain ⟨-, horder⟩ := inOrder_of_run run fun x hx => plain_callsNoPurge (hok x hx)
  have hall := inserted_plain run hok
  have hins : (inserted xs).filter (·.job.priority == 0) = inserted xs :=
    List.filter_eq_self.mpr fun e he => by simp [hall e he]
  have hhand : (handed xs).filter (·.job.priority == 0) = handed xs :=
    List.filter_eq_self.mpr fun e he => by
      simp [hall e ((history_of_run run).goneInserted e (List.mem_append_left _ he))]
  have h := horder 0
  unfold InOrder at h
  rwa [hins, hhand] at h

end Steps

end Dans.Threads

namespace Dans.Executor

variable {S W C : Type} [DecidableEq S] [DecidableEq W]

/-! ### What a run submits, hands to workers and starts -/

/-- The tasks whose jobs a step puts into the queue. -/
def Sys.submits (s : Sys S W C) (l : Label S W C) : List (ExecutorCallback C) :=
  ((s.queueLabel l).elim [] s.queue.inserts).map (·.job.jobData)

def submitted (xs : List (Sys S W C × Label S W C)) : List (ExecutorCallback C) := xs.flatMap fun x => x.1.submits x.2

/-- The task with which a worker is in front of its closure. -/
def Loop.held : Loop C → Option (ExecutorCallback C)
  | taken task => some task
  | test | inside | running _ | exited => none

def Sys.holding (s : Sys S W C) (w : W) : List (W × ExecutorCallback C) := (s.loop w).held.toList.map (w, ·)

/-- The tasks with which `Submit` was called. -/
def Label.submits : Label S W C → List (ExecutorCallback C)
  | submit _ task => [task]
  | proceed _ | loop _ | finish _ | destruct _ | release => []

def called (xs : List (Sys S W C × Label S W C)) : List (ExecutorCallback C) := xs.flatMap fun x => x.2.submits

/-- The task whose closure a worker calls with a step. -/
def Sys.starts (s : Sys S W C) : Label S W C → List (W × ExecutorCallback C)
  | .loop w => s.holding w
  | .submit _ _ | .proceed _ | .finish _ | .destruct _ | .release => []

def started (xs : List (Sys S W C × Label S W C)) : List (W × ExecutorCallback C) := xs.flatMap fun x => x.1.starts x.2

variable [Fintype S] [Fintype W]

/-- The task with which `Dequeue` returns in a worker. -/
def Sys.takes (s : Sys S W C) : Label S W C → List (W × ExecutorCallback C)
  | .loop w => (s.next (.loop w)).elim [] fun s' => s'.holding w
  | .submit _ _ | .proceed _ | .finish _ | .destruct _ | .release => []

def taken (xs : List (Sys S W C × Label S W C)) : List (W × ExecutorCallback C) := xs.flatMap fun x => x.1.takes x.2

variable {s s' : Sys S W C} {l : Label S W C} {xs : List (Sys S W C × Label S W C)}

omit [DecidableEq W] [Fintype S] [Fintype W] in
theorem flatMap_queueSteps {α : Type}
    (f : Threads.Sys (Thread S W) (ExecutorCallback C) × Threads.Label (Thread S W) (ExecutorCallback C) → List α) :
    (queueSteps xs).flatMap f = xs.flatMap fun x => (x.1.queueLabel x.2).elim [] fun m => f (x.1.queue, m) := by
  unfold queueSteps
  induction xs with
  | nil => rfl
  | cons x xs ih =>
    rw [List.flatMap_cons, ← ih]
    cases hx : x.1.queueLabel x.2 with
    | none => simp [hx]
    | some m => simp [hx]

omit [DecidableEq W] [Fintype S] [Fintype W] in
theorem submitted_eq : submitted xs = (Threads.inserted (queueSteps xs)).map (·.job.jobData) := by
  unfold Threads.inserted
  rw [flatMap_queueSteps, List.map_flatMap]
  rfl

omit [DecidableEq W] [Fintype S] [Fintype W] in
theorem plain_queueLabel {m : Threads.Label (Thread S W) (ExecutorCallback C)} (h : s.queueLabel l = some m) :
    Threads.plain s.queue m := by
  cases l with
  | proceed t =>
    simp only [Sys.queueLabel] at h
    split at h <;> cases h
    · rfl
    · trivial
  | loop w =>
    simp only [Sys.queueLabel] at h
    split at h
    · split at h <;> cases h
      rfl
    · cases h
      trivial
    · cases h
    · cases h
    · cases h
  | release =>
    simp only [Sys.queueLabel] at h
    split at h <;> cases h <;> trivial
  | submit _ _ | finish _ | destruct _ => cases h

omit [DecidableEq W] [Fintype S] [Fintype W] in
theorem queueSteps_plain : Lts.Meets Threads.plain (queueSteps xs) := by
  intro y hy
  obtain ⟨x, -, hx⟩ := List.mem_filterMap.mp hy
  obtain ⟨m, hm, rfl⟩ := Option.map_eq_some_iff.mp hx
  exact plain_queueLabel hm

/-- The queue hands out a job with the step that ends a `Dequeue`. -/
theorem hands_of_step {q q' : Threads.Sys (Thread S W) (ExecutorCallback C)} {t : Thread S W}
    (h : q.next (.step t) = some q') :
    (q.hands (.step t)).map (·.job.jobData) = (Loop.after (q'.pc t)).held.toList := by
  cases Threads.next_effect h with
  | take pc taken => simp [Threads.Sys.hands, pc, taken, Loop.after, Loop.held]
  | move pc goes => cases goes <;> simp [Threads.Sys.hands, pc, Threads.Sys.goto, Loop.after, Loop.held]
  | fail pc faults =>
    cases faults with
    | deqMap herr => simp [Threads.Sys.hands, pc, herr, Threads.Sys.fail, Loop.after, Loop.held]
    | _ => simp [Threads.Sys.hands, pc, Threads.Sys.fail, Loop.after, Loop.held]
  | insert pc | entry pc | gate pc _ | flag pc _ | released pc _ _ | pop pc _ | purge pc _ | one pc | all pc =>
    simp [Threads.Sys.hands, pc, Loop.after, Loop.held]

omit [DecidableEq S] [DecidableEq W] [Fintype S] [Fintype W] in
theorem hands_of_kind {q : Threads.Sys (Thread S W) (ExecutorCallback C)} {t : Thread S W}
    (h : (q.pc t).kind ≠ .dequeue) : q.hands (.step t) = [] := by
  simp only [Threads.Sys.hands]
  split
  · next pc => simp [pc, Threads.Pc.kind] at h
  · rfl

theorem takes_eq (coupled : Coupled s) (apart : Apart s) (hn : s.next l = some s') :
    (s.takes l).map Prod.snd = ((s.queueLabel l).elim [] s.queue.hands).map (·.job.jobData) := by
  cases (next_step hn).2 with
  | submit _ _ | finish _ _ | destruct _ _ => rfl
  | enqueue submit next => simp [Sys.takes, Sys.queueLabel, submit, Threads.Sys.hands]
  | @enqueueing t q submit next =>
    have hkind : (s.queue.pc t).kind = .enqueue := by simpa [Sys.kind, submit] using coupled t
    simp [Sys.takes, Sys.queueLabel, submit, hands_of_kind (q := s.queue) (t := t) (by simp [hkind])]
  | ask test none next => simp [Sys.takes, hn, Sys.holding, Loop.held, Sys.queueLabel, test, none, Threads.Sys.hands]
  | exit test destructing => simp [Sys.takes, hn, Sys.holding, Loop.held, Sys.queueLabel, test, destructing]
  | inside inside next =>
    simp [Sys.takes, hn, Sys.holding, Sys.queueLabel, inside, hands_of_step next, Function.comp_def]
  | start taken => simp [Sys.takes, hn, Sys.holding, Loop.held, Sys.queueLabel, taken]
  | call flagged next => simp [Sys.takes, Sys.queueLabel, flagged, Threads.Sys.hands]
  | @releasing t q releasing next =>
    have hkind : (s.queue.pc (.inl t)).kind = .releaseQueues := by
      have houtside := apart.quiet (by simp [releasing]) (.inl t)
      simpa [Sys.kind, houtside, releasing, Destructor.kind] using coupled (.inl t)
    simp [Sys.takes, Sys.queueLabel, releasing, hands_of_kind (q := s.queue) (t := .inl t) (by simp [hkind])]

theorem taken_eq (run : (system S W C).Run xs s) :
    (taken xs).map Prod.snd = (Threads.handed (queueSteps xs)).map (·.job.jobData) := by
  unfold Threads.handed
  rw [flatMap_queueSteps, List.map_flatMap]
  induction run with
  | init => rfl
  | @step xs s t l run hn ih =>
    obtain ⟨apart, coupled⟩ := coupled_of_run run
    simp only [taken, List.flatMap_append, List.flatMap_singleton, List.map_append] at ih ⊢
    rw [ih, takes_eq coupled apart hn]

/-! ### Tasks in front of their closures -/

/-- A worker changes what it holds only by a step of its loop. -/
theorem holding_of_next {w : W} (hn : s.next l = some s') (hl : l ≠ .loop w) : s'.holding w = s.holding w := by
  have other : ∀ {v : W} {c : Loop C}, v ≠ w → (Function.update s.loop v c w).held = (s.loop w).held :=
    fun hv => by rw [Function.update_of_ne (Ne.symm hv)]
  suffices hheld : (s'.loop w).held = (s.loop w).held by rw [Sys.holding, hheld, Sys.holding]
  cases (next_step hn).2 with
  | @ask v _ _ _ _ | @exit v _ _ | @inside v _ _ _ | @start v _ _ => exact other fun heq => hl (heq ▸ rfl)
  | @finish v task running outside =>
    by_cases hv : v = w
    · subst hv
      simp [running, Loop.held]
    · exact other hv
  | submit _ _ | enqueue _ _ | enqueueing _ _ | destruct _ _ | call _ _ | releasing _ _ => rfl

/-- A worker starts the tasks that it is handed in their order, all but one that it may still hold. -/
theorem started_of_run (run : (system S W C).Run xs s) (w : W) :
    (taken xs).filter (·.1 == w) = (started xs).filter (·.1 == w) ++ s.holding w := by
  induction run with
  | init => rfl
  | @step xs s s' l run hn ih =>
    simp only [taken, started, List.flatMap_append, List.flatMap_singleton, List.filter_append] at ih ⊢
    rw [ih, List.append_assoc, List.append_assoc]
    congr 1
    have own : ∀ {v : W} {s : Sys S W C}, (s.holding v).filter (·.1 == w) = if v = w then s.holding v else [] := by
      intro v s
      by_cases hv : v = w <;> simp [Sys.holding, List.filter_map, Function.comp_def, hv]
    have hnext : s.next l = some s' := hn
    have kept : l ≠ .loop w → s.holding w = s'.holding w := fun hl => (holding_of_next hnext hl).symm
    cases l with
    | loop v =>
      simp only [Sys.takes, Sys.starts, hnext, Option.elim_some, own]
      split
      · next hv => rw [hv]
      · next hv => simpa using kept fun heq => hv (Label.loop.inj heq)
    | submit _ _ | proceed _ | finish _ | destruct _ | release =>
      simpa [Sys.takes, Sys.starts] using kept (by simp)

omit [DecidableEq S] [Fintype S] [Fintype W] in
theorem filter_eq_self_of_one {w : W} (hone : ∀ v, v = w) (ys : List (W × ExecutorCallback C)) :
    ys.filter (·.1 == w) = ys := List.filter_eq_self.mpr fun y _ => beq_iff_eq.mpr (hone y.1)

/-! ### Tasks on their way into the queue -/

/-- The task of a `Submit` that has not put it into the queue. -/
def Sys.pending (s : Sys S W C) (t : Thread S W) : Option (ExecutorCallback C) :=
  match s.submit t with
  | .outside => none
  | .incremented task => some task
  | .enqueueing => (s.queue.pc t).toInsert.map (·.jobData)

omit [Fintype S] [Fintype W] in
/-- A step of thread `t` that leaves the others in `Submit` where they are. -/
theorem pending_update {t : Thread S W} (hsubmit : ∀ u, u ≠ t → s'.submit u = s.submit u)
    (hpc : ∀ u, u ≠ t → s'.queue.pc u = s.queue.pc u) : s'.pending = Function.update s.pending t (s'.pending t) := by
  funext u
  by_cases hut : u = t
  · subst hut
    simp
  · rw [Function.update_of_ne hut]
    simp only [Sys.pending, hsubmit u hut, hpc u hut]

/-- A task is pending from its `Submit` to the step that puts it into the queue. -/
theorem Step.pending (hs : Step s l s') (coupled : Coupled s) (apart : Apart s) :
    ∃ t, s'.pending = Function.update s.pending t (s'.pending t) ∧
      l.submits ++ (s.pending t).toList = s.submits l ++ (s'.pending t).toList := by
  have inserts : ∀ {t}, (s.queue.pc t).kind ≠ .enqueue → s.queue.inserts (.step t) = [] := by
    intro t hkind
    simp only [Threads.Sys.inserts]
    split
    · next pc => simp [pc, Threads.Pc.kind] at hkind
    · rfl
  cases hs with
  | @submit t task n none may =>
    have houtside := Submit.eq_outside (Bool.and_eq_true_iff.mp may).1
    refine ⟨t, pending_update (fun u hu => Function.update_of_ne hu _ _) fun _ _ => rfl, ?_⟩
    simp [Label.submits, Sys.submits, Sys.queueLabel, Sys.pending, houtside]
  | @enqueue t task q submit next =>
    have hpc := queue_call next (by simp)
    refine ⟨t, pending_update (fun u hu => Function.update_of_ne hu _ _) fun u hu => ?_, ?_⟩
    · simp [hpc, Function.update_of_ne hu]
    · simp [Label.submits, Sys.submits, Sys.queueLabel, Sys.pending, submit, hpc, Threads.Pc.start, Threads.Pc.toInsert,
        Threads.Sys.inserts, Sys.job]
  | @enqueueing t q submit next =>
    have he := Threads.next_effect next
    refine ⟨t, pending_update (fun u hu => Function.update_of_ne hu _ _) he.kind_step.2, ?_⟩
    have hpend : ∀ c : Submit C, c = (if (q.pc t).isIdle then .outside else .enqueueing) →
        Sys.pending { s with queue := q, submit := Function.update s.submit t c } t =
          (q.pc t).toInsert.map (·.jobData) := by
      rintro c rfl
      cases hc : q.pc t <;> simp [Sys.pending, hc, Threads.Pc.isIdle, Threads.Pc.toInsert]
    have hins := congrArg (List.map (·.jobData)) he.toInsert
    rw [hpend _ rfl]
    simp only [Label.submits, List.nil_append, Sys.submits, Sys.queueLabel, submit, Option.elim_some, Sys.pending]
    simpa [Option.toList_map, Function.comp_def] using hins
  | @ask w q test none next =>
    obtain ⟨houtside, -⟩ := apart.kind_worker (w := w) (by simp [test])
    have hpc := queue_call next fun p hp => by cases hp; rfl
    refine ⟨.inr w, pending_update (fun _ _ => rfl) fun u hu => ?_, ?_⟩
    · simp [hpc, Function.update_of_ne hu]
    · simp [Label.submits, Sys.submits, Sys.queueLabel, test, none, Threads.Sys.inserts, Sys.pending, houtside]
  | @exit w test destructing =>
    refine ⟨.inr w, pending_update (fun _ _ => rfl) fun _ _ => rfl, ?_⟩
    simp [Label.submits, Sys.submits, Sys.queueLabel, test, destructing, Sys.pending]
  | @inside w q inside next =>
    obtain ⟨houtside, hkind⟩ := apart.kind_worker (w := w) (by simp [inside])
    refine ⟨.inr w, pending_update (fun _ _ => rfl) (Threads.next_effect next).kind_step.2, ?_⟩
    have hins := inserts (t := .inr w) (by rw [coupled, hkind, inside]; simp [Loop.kind])
    simp [Label.submits, Sys.submits, Sys.queueLabel, inside, hins, Sys.pending, houtside]
  | @start w task taken =>
    refine ⟨.inr w, pending_update (fun _ _ => rfl) fun _ _ => rfl, ?_⟩
    simp [Label.submits, Sys.submits, Sys.queueLabel, taken, Sys.pending]
  | @finish w task running outside =>
    refine ⟨.inr w, pending_update (fun _ _ => rfl) fun _ _ => rfl, ?_⟩
    simp [Label.submits, Sys.submits, Sys.queueLabel, Sys.pending]
  | @destruct t none outside =>
    refine ⟨.inl t, pending_update (fun _ _ => rfl) fun _ _ => rfl, ?_⟩
    simp [Label.submits, Sys.submits, Sys.queueLabel, Sys.pending]
  | @call t q flagged next =>
    have houtside := apart.quiet (by simp [flagged]) (.inl t)
    have hpc := queue_call next (by simp)
    refine ⟨.inl t, pending_update (fun _ _ => rfl) fun u hu => ?_, ?_⟩
    · simp [hpc, Function.update_of_ne hu]
    · simp [Label.submits, Sys.submits, Sys.queueLabel, flagged, Threads.Sys.inserts, Sys.pending, houtside]
  | @releasing t q releasing next =>
    have houtside := apart.quiet (by simp [releasing]) (.inl t)
    refine ⟨.inl t, pending_update (fun _ _ => rfl) (Threads.next_effect next).kind_step.2, ?_⟩
    have hkind : s.kind (.inl t) = .releaseQueues := by simp [Sys.kind, houtside, releasing, Destructor.kind]
    have hins := inserts (t := .inl t) (by simp [coupled (.inl t), hkind])
    simp [Label.submits, Sys.submits, Sys.queueLabel, releasing, hins, Sys.pending, houtside]

/-! ### Whole runs -/

section Runs
variable [DecidableEq C]

/-- Every `Submit` puts its task into the queue once. -/
theorem called_eq (run : (system S W C).Run xs s) (task : ExecutorCallback C) : (called xs).count task =
    (submitted xs).count task + Tally.tally (fun o : Option (ExecutorCallback C) => o.toList.count task) s.pending := by
  induction run with
  | init =>
    have hnone : (system S W C).init.pending = fun _ => none := rfl
    simp [called, submitted, hnone, Tally.tally]
  | @step xs s s' l run hn ih =>
    obtain ⟨apart, coupled⟩ := coupled_of_run run
    obtain ⟨t, hpending, hmoved⟩ := (next_step hn).2.pending coupled apart
    have htally := Tally.tally_update (fun o : Option (ExecutorCallback C) => o.toList.count task) s.pending t (s'.pending t)
    rw [← hpending] at htally
    have hcount := congrArg (List.count task) hmoved
    simp only [List.count_append] at hcount
    simp only [called, submitted, List.flatMap_append, List.flatMap_singleton, List.count_append] at ih ⊢
    omega

end Runs

end Dans.Executor
