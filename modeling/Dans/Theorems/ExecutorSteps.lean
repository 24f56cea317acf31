import Dans.Executor
import Dans.Theorems.Pool

/-! What the steps of an executor can do, case by case, and what its threads do in its queue: a run of the executor is a
    run of threads that share the queue, in which a thread is inside an operation exactly where the executor says so. -/

namespace Dans.Threads
open MultiQueue

variable {Tid T : Type}

/-! ### Operations in progress -/

/-- The operation that a call is one of. -/
inductive Kind where
  | outside
  | enqueue
  | dequeue
  | purge
  | releaseOne
  | releaseQueues
  deriving DecidableEq

def Pc.kind : Pc T → Kind
  | idle _ => .outside
  | enqPurge _ | enqQueue _ | enqInsert _ | enqMapLock _ _ | enqMap _ _ => .enqueue
  | deqGate _ | deqFlag _ | deqPurge _ | deqTest _ | deqQueue _ | deqPop _ | deqMapLock _ _ | deqMap _ _ => .dequeue
  | purgeLock _ | purgeBody _ => .purge
  | oneLock _ | oneQueue _ | oneBody _ => .releaseOne
  | allLock | allBody => .releaseQueues

theorem Pc.isIdle_iff {c : Pc T} : c.isIdle = true ↔ c.kind = .outside := by
  cases c <;> simp [Pc.isIdle, Pc.kind]

section Steps
variable [DecidableEq Tid] {s s' : Sys Tid T} {t : Tid}

/-- A step of a thread goes on with its call or ends it, and moves no other thread. -/
theorem Effect.kind_step (he : Effect s (.step t) s') :
    ((s'.pc t).kind = .outside ∨ (s'.pc t).kind = (s.pc t).kind) ∧ ∀ u, u ≠ t → s'.pc u = s.pc u := by
  have become : ∀ {q} {c : Pc T}, c.kind = .outside ∨ c.kind = (s.pc t).kind →
      (((s.become t q c).pc t).kind = .outside ∨ ((s.become t q c).pc t).kind = (s.pc t).kind) ∧
        ∀ u, u ≠ t → (s.become t q c).pc u = s.pc u := by
    intro q c hc
    refine ⟨by simpa using hc, fun u hu => ?_⟩
    exact Function.update_of_ne hu _ _
  cases he with
  | move pc goes =>
    refine become (Or.inr ?_)
    rw [pc]
    cases goes <;> rfl
  | fail _ _ => exact ⟨Or.inr rfl, fun _ _ => rfl⟩
  | insert pc | gate pc _ | pop pc _ =>
    refine become (Or.inr ?_)
    rw [pc]
    rfl
  | entry _ | flag _ _ | released _ _ _ | take _ _ | purge _ _ | one _ | all _ => exact become (Or.inl rfl)

end Steps

end Dans.Threads

namespace Dans.Executor

variable {S W C : Type} [DecidableEq S] [DecidableEq W]

/-! ### The steps -/

/-- What a label is for the queue. -/
def Sys.queueLabel (s : Sys S W C) : Label S W C → Option (Threads.Label (Thread S W) (ExecutorCallback C))
  | .proceed t =>
    match s.submit t with
    | .outside => none
    | .incremented task => some (.call t (.enqueue (s.job task)))
    | .enqueueing => some (.step t)
  | .loop w =>
    match s.loop w with
    | .test => if s.destructor = .none then some (.call (.inr w) (.dequeue 0)) else none
    | .inside => some (.step (.inr w))
    | .taken _ => none
    | .running _ => none
    | .exited => none
  | .release =>
    match s.destructor with
    | .flagged t => some (.call (.inl t) .releaseQueues)
    | .releasing t => some (.step (.inl t))
    | .none => none
    | .joining => none
  | .submit _ _ | .finish _ | .destruct _ => none

/-- The steps of a run that are steps in the queue. -/
def queueSteps (xs : List (Sys S W C × Label S W C)) :
    List (Threads.Sys (Thread S W) (ExecutorCallback C) × Threads.Label (Thread S W) (ExecutorCallback C)) :=
  xs.filterMap fun x => (x.1.queueLabel x.2).map (x.1.queue, ·)

variable [Fintype S] [Fintype W]

/-- The steps, case by case. -/
inductive Step (s : Sys S W C) : Label S W C → Sys S W C → Prop where
  | submit {t : Thread S W} {task : ExecutorCallback C} {n : Int} (none : s.destructor = .none)
      (may : s.maySubmit t = true) :
      Step s (.submit t task) { s with jidFactory := ⟨n⟩, submit := Function.update s.submit t (.incremented task) }
  | enqueue {t : Thread S W} {task : ExecutorCallback C} {q : Threads.Sys (Thread S W) (ExecutorCallback C)}
      (submit : s.submit t = .incremented task) (next : s.queue.next (.call t (.enqueue (s.job task))) = some q) :
      Step s (.proceed t) { s with queue := q, submit := Function.update s.submit t .enqueueing }
  | enqueueing {t : Thread S W} {q : Threads.Sys (Thread S W) (ExecutorCallback C)}
      (submit : s.submit t = .enqueueing) (next : s.queue.next (.step t) = some q) :
      Step s (.proceed t)
        { s with
          queue := q, submit := Function.update s.submit t (if (q.pc t).isIdle then .outside else .enqueueing) }
  | ask {w : W} {q : Threads.Sys (Thread S W) (ExecutorCallback C)} (test : s.loop w = .test)
      (none : s.destructor = .none) (next : s.queue.next (.call (.inr w) (.dequeue 0)) = some q) :
      Step s (.loop w) { s with queue := q, loop := Function.update s.loop w .inside }
  | exit {w : W} (test : s.loop w = .test) (destructing : s.destructor ≠ .none) :
      Step s (.loop w) { s with loop := Function.update s.loop w .exited }
  | inside {w : W} {q : Threads.Sys (Thread S W) (ExecutorCallback C)} (inside : s.loop w = .inside)
      (next : s.queue.next (.step (.inr w)) = some q) :
      Step s (.loop w) { s with queue := q, loop := Function.update s.loop w (.after (q.pc (.inr w))) }
  | start {w : W} {task : ExecutorCallback C} (taken : s.loop w = .taken task) :
      Step s (.loop w) { s with loop := Function.update s.loop w (.running task) }
  | finish {w : W} {task : ExecutorCallback C} (running : s.loop w = .running task)
      (outside : s.submit (.inr w) = .outside) :
      Step s (.finish w) { s with loop := Function.update s.loop w .test }
  | destruct {t : S} (none : s.destructor = .none) (outside : ∀ u, s.submit u = .outside) :
      Step s (.destruct t) { s with destructor := .flagged t }
  | call {t : S} {q : Threads.Sys (Thread S W) (ExecutorCallback C)} (flagged : s.destructor = .flagged t)
      (next : s.queue.next (.call (.inl t) .releaseQueues) = some q) :
      Step s .release { s with queue := q, destructor := .releasing t }
  | releasing {t : S} {q : Threads.Sys (Thread S W) (ExecutorCallback C)} (releasing : s.destructor = .releasing t)
      (next : s.queue.next (.step (.inl t)) = some q) :
      Step s .release { s with queue := q, destructor := if (q.pc (.inl t)).isIdle then .joining else .releasing t }

variable {s s' : Sys S W C} {l : Label S W C}

omit [DecidableEq S] [DecidableEq W] [Fintype S] [Fintype W] in
theorem Submit.eq_outside {c : Submit C} (h : c.isOutside = true) : c = .outside := by
  cases c <;> first | rfl | cases h

omit [DecidableEq S] [DecidableEq W] [Fintype S] [Fintype W] in
theorem Loop.eq_running {c : Loop C} (h : c.isRunning = true) : ∃ task, c = .running task := by
  cases c with
  | running task => exact ⟨task, rfl⟩
  | test | inside | taken _ | exited => cases h

theorem next_step (h : s.next l = some s') : s.queue.fault = none ∧ Step s l s' := by
  unfold Sys.next at h
  split at h
  · cases h
  next hfault =>
  refine ⟨by simpa using hfault, ?_⟩
  cases l with
  | submit t task =>
    dsimp only at h
    split at h
    · next hcan =>
      obtain ⟨r, hr, rfl⟩ := Option.map_eq_some_iff.mp h
      exact .submit hcan.1 hcan.2
    · cases h
  | proceed t =>
    dsimp only [Sys.proceed] at h
    split at h
    · cases h
    · next hsubmit =>
      obtain ⟨q, hq, rfl⟩ := Option.map_eq_some_iff.mp h
      exact .enqueue hsubmit hq
    · next hsubmit =>
      obtain ⟨q, hq, rfl⟩ := Option.map_eq_some_iff.mp h
      exact .enqueueing hsubmit hq
  | loop w =>
    dsimp only [Sys.turn] at h
    split at h
    · next htest =>
      split at h
      · next hnone =>
        obtain ⟨q, hq, rfl⟩ := Option.map_eq_some_iff.mp h
        exact .ask htest hnone hq
      · next hdestructing =>
        cases h
        exact .exit htest hdestructing
    · next hinside =>
      obtain ⟨q, hq, rfl⟩ := Option.map_eq_some_iff.mp h
      exact .inside hinside hq
    · next htaken =>
      cases h
      exact .start htaken
    · cases h
    · cases h
  | finish w =>
    dsimp only at h
    split at h
    · next hcan =>
      cases h
      obtain ⟨hrunning, houtside⟩ := Bool.and_eq_true_iff.mp hcan
      obtain ⟨task, htask⟩ := Loop.eq_running hrunning
      exact .finish htask (Submit.eq_outside houtside)
    · cases h
  | destruct t =>
    dsimp only at h
    split at h
    · next hcan =>
      cases h
      exact .destruct hcan.1 fun u => Submit.eq_outside (hcan.2 u)
    · cases h
  | release =>
    dsimp only [Sys.release] at h
    split at h
    · next hflagged =>
      obtain ⟨q, hq, rfl⟩ := Option.map_eq_some_iff.mp h
      exact .call hflagged hq
    · next hreleasing =>
      obtain ⟨q, hq, rfl⟩ := Option.map_eq_some_iff.mp h
      exact .releasing hreleasing hq
    · cases h
    · cases h

theorem Step.queue (h : Step s l s') :
    (s.queueLabel l).elim (s'.queue = s.queue) fun m => s.queue.next m = some s'.queue := by
  cases h with
  | enqueue submit next | enqueueing submit next => simpa [Sys.queueLabel, submit] using next
  | ask test none next => simpa [Sys.queueLabel, test, none] using next
  | exit test destructing => simp [Sys.queueLabel, test, destructing]
  | inside inside next => simpa [Sys.queueLabel, inside] using next
  | start taken => simp [Sys.queueLabel, taken]
  | call flagged next => simpa [Sys.queueLabel, flagged] using next
  | releasing releasing next => simpa [Sys.queueLabel, releasing] using next
  | submit _ _ | finish _ _ | destruct _ _ => rfl

variable {xs : List (Sys S W C × Label S W C)}

/-- The threads of an executor are threads that share its queue. -/
theorem queue_run (run : (system S W C).Run xs s) :
    (Threads.system (Thread S W) (ExecutorCallback C) kMaxPrioDansExecutor).Run (queueSteps xs) s.queue :=
  run.project (f := Sys.queue) (g := Sys.queueLabel) rfl fun hn => (next_step hn).2.queue

/-! ### Who is inside the queue -/

/-- A worker submits only from its closure, and nobody does once the destructor has begun. -/
structure Apart (s : Sys S W C) : Prop where
  closures : ∀ w, s.submit (.inr w) ≠ .outside → ∃ task, s.loop w = .running task
  quiet : s.destructor ≠ .none → ∀ t, s.submit t = .outside

theorem Apart.step (h : Apart s) (hs : Step s l s') : Apart s' := by
  -- A thread that was in `Submit` goes on, and the loops and the destructor stay where they are.
  have go : ∀ {t c} {q : Threads.Sys (Thread S W) (ExecutorCallback C)}, s.submit t ≠ .outside →
      Apart { s with queue := q, submit := Function.update s.submit t c } := by
    intro t c q ht
    refine ⟨fun w hw => ?_, fun hne => absurd (h.quiet hne t) ht⟩
    by_cases hwt : Sum.inr w = t
    · exact h.closures w (hwt ▸ ht)
    · exact h.closures w (by simpa [Function.update_of_ne hwt] using hw)
  -- A worker moves in its loop from a point at which it submits nothing.
  have move : ∀ {w c} {q : Threads.Sys (Thread S W) (ExecutorCallback C)}, s.submit (.inr w) = .outside →
      Apart { s with queue := q, loop := Function.update s.loop w c } := by
    intro w c q hw
    refine ⟨fun v hv => ?_, h.quiet⟩
    have hne : v ≠ w := fun heq => hv (heq ▸ hw)
    simpa [Function.update_of_ne hne] using h.closures v hv
  have idle : ∀ {w}, (∀ task, s.loop w ≠ .running task) → s.submit (.inr w) = .outside := fun {w} hw => by
    by_contra hne
    obtain ⟨task, htask⟩ := h.closures w hne
    exact hw task htask
  cases hs with
  | @submit t task n none may =>
    refine ⟨fun w hw => ?_, fun hne => absurd none hne⟩
    by_cases hwt : t = .inr w
    · subst hwt
      exact Loop.eq_running (Bool.and_eq_true_iff.mp may).2
    · exact h.closures w (by simpa [Function.update_of_ne (Ne.symm hwt)] using hw)
  | enqueue submit _ | enqueueing submit _ => exact go (by simp [submit])
  | ask test _ _ | exit test _ => exact move (idle (by simp [test]))
  | inside inside _ => exact move (idle (by simp [inside]))
  | start taken => exact move (idle (by simp [taken]))
  | finish _ outside => exact move outside
  | destruct _ outside => exact ⟨fun w hw => absurd (outside _) hw, fun _ => outside⟩
  | call flagged _ => exact ⟨h.closures, fun _ => h.quiet (by simp [flagged])⟩
  | releasing releasing _ => exact ⟨h.closures, fun _ => h.quiet (by simp [releasing])⟩

def Loop.kind : Loop C → Threads.Kind
  | inside => .dequeue
  | test | taken _ | running _ | exited => .outside

def Destructor.kind (t : S) : Destructor S → Threads.Kind
  | releasing u => if u = t then .releaseQueues else .outside
  | none | flagged _ | joining => .outside

/-- The operation of the queue that a thread of the executor is in. -/
def Sys.kind (s : Sys S W C) (t : Thread S W) : Threads.Kind :=
  match s.submit t with
  | .enqueueing => .enqueue
  | .outside | .incremented _ => t.elim (fun t => s.destructor.kind t) fun w => (s.loop w).kind

omit [DecidableEq W] [Fintype S] [Fintype W] in
/-- Only a worker in its loop is in `Dequeue`. -/
theorem worker_of_dequeue {t : Thread S W} (h : s.kind t = .dequeue) : ∃ w, t = .inr w ∧ s.loop w = .inside := by
  unfold Sys.kind at h
  split at h
  · cases h
  all_goals
    cases t with
    | inl t =>
      simp only [Sum.elim_inl, Destructor.kind] at h
      split at h
      · split at h <;> cases h
      all_goals cases h
    | inr w =>
      simp only [Sum.elim_inr, Loop.kind] at h
      split at h
      · next hloop => exact ⟨w, rfl, hloop⟩
      all_goals cases h

/-- A thread is inside an operation of the queue where the executor has called it. -/
def Coupled (s : Sys S W C) : Prop := ∀ t, (s.queue.pc t).kind = s.kind t

omit [DecidableEq S] [DecidableEq W] [Fintype S] [Fintype W] in
theorem Loop.after_kind (c : Threads.Pc (ExecutorCallback C)) :
    (Loop.after c).kind = if c.isIdle then .outside else .dequeue := by
  cases c with
  | idle ret =>
    rcases ret with _ | ret
    · rfl
    · cases ret with
      | job job => cases job <;> rfl
      | void | purged _ => rfl
  | _ => rfl

/-- A call puts its thread inside, and moves no other. -/
theorem queue_call {q q' : Threads.Sys (Thread S W) (ExecutorCallback C)} {t : Thread S W}
    {op : MultiQueue.Op (ExecutorCallback C)} (h : q.next (.call t op) = some q') (hop : ∀ p, op = .dequeue p → p = 0) :
    q'.pc = Function.update q.pc t (.start op) := by
  cases Threads.next_effect h with
  | call _ _ => rfl
  | callFail range => exact absurd (Nat.zero_le _) (hop _ rfl ▸ range)

theorem Coupled.of_call (h : Coupled s) {t : Thread S W} {op : MultiQueue.Op (ExecutorCallback C)}
    (next : s.queue.next (.call t op) = some s'.queue) (hop : ∀ p, op = .dequeue p → p = 0)
    (hself : s'.kind t = (Threads.Pc.start op).kind) (hothers : ∀ u, u ≠ t → s'.kind u = s.kind u) : Coupled s' := by
  intro u
  rw [queue_call next hop]
  by_cases hut : u = t
  · subst hut
    simp [hself]
  · rw [Function.update_of_ne hut, hothers u hut]
    exact h u

theorem Coupled.of_step (h : Coupled s) {t : Thread S W} (next : s.queue.next (.step t) = some s'.queue)
    (hself : s'.kind t = if (s'.queue.pc t).isIdle then .outside else s.kind t)
    (hothers : ∀ u, u ≠ t → s'.kind u = s.kind u) : Coupled s' := by
  obtain ⟨hkind, hpc⟩ := (Threads.next_effect next).kind_step
  intro u
  by_cases hut : u = t
  · subst hut
    rw [hself]
    split
    · next hidle => exact Threads.Pc.isIdle_iff.mp hidle
    · next hidle => exact (hkind.resolve_left fun hout => hidle (Threads.Pc.isIdle_iff.mpr hout)).trans (h u)
  · rw [hpc u hut, hothers u hut]
    exact h u

omit [Fintype S] [Fintype W] in
/-- A worker goes from one point outside the queue to another. -/
theorem Coupled.of_loop (h : Coupled s) {w : W} {c : Loop C} (hkind : c.kind = (s.loop w).kind) :
    Coupled { s with loop := Function.update s.loop w c } := by
  intro u
  cases u with
  | inl u => exact h (.inl u)
  | inr v =>
    by_cases hvw : v = w
    · subst hvw
      simpa [Sys.kind, hkind] using h (.inr v)
    · simpa [Sys.kind, Function.update_of_ne hvw] using h (.inr v)

omit [DecidableEq W] [Fintype S] [Fintype W] in
theorem Apart.kind_worker (h : Apart s) {w : W} (hw : ∀ task, s.loop w ≠ .running task) :
    s.submit (.inr w) = .outside ∧ s.kind (.inr w) = (s.loop w).kind := by
  have houtside : s.submit (.inr w) = .outside := by
    by_contra hne
    obtain ⟨task, htask⟩ := h.closures w hne
    exact hw task htask
  simp [Sys.kind, houtside]

theorem Coupled.step (h : Coupled s) (apart : Apart s) (hs : Step s l s') : Coupled s' := by
  cases hs with
  | @submit t task n none may =>
    have houtside := Submit.eq_outside (Bool.and_eq_true_iff.mp may).1
    intro u
    by_cases hut : u = t
    · subst hut
      simpa [Sys.kind, houtside] using h u
    · simpa [Sys.kind, Function.update_of_ne hut] using h u
  | @enqueue t task q submit next =>
    refine h.of_call next (by simp) (by simp [Sys.kind, Threads.Pc.start, Threads.Pc.kind]) fun u hut => ?_
    simp [Sys.kind, Function.update_of_ne hut]
  | @enqueueing t q submit next =>
    refine h.of_step next ?_ fun u hut => by simp [Sys.kind, Function.update_of_ne hut]
    -- Nobody submits who is in another operation of the queue.
    have helse : t.elim (fun t => s.destructor.kind t) (fun w => (s.loop w).kind) = .outside := by
      cases t with
      | inl t =>
        have hnone : s.destructor = .none := by
          by_contra hne
          have hout := apart.quiet hne (.inl t)
          rw [submit] at hout
          cases hout
        simp [hnone, Destructor.kind]
      | inr w =>
        obtain ⟨task, htask⟩ := apart.closures w (by simp [submit])
        simp [htask, Loop.kind]
    by_cases hidle : (q.pc t).isIdle = true <;> simp [Sys.kind, hidle, helse, submit]
  | @ask w q test none next =>
    obtain ⟨houtside, -⟩ := apart.kind_worker (w := w) (by simp [test])
    refine h.of_call next (fun p hp => by cases hp; rfl) ?_ fun u hut => ?_
    · simp [Sys.kind, houtside, Loop.kind, Threads.Pc.start, Threads.Pc.kind]
    · cases u with
      | inl u => rfl
      | inr v => simp [Sys.kind, Function.update_of_ne (fun heq => hut (congrArg Sum.inr heq) : v ≠ w)]
  | exit test _ => exact h.of_loop (by rw [test]; rfl)
  | @inside w q inside next =>
    obtain ⟨houtside, -⟩ := apart.kind_worker (w := w) (by simp [inside])
    refine h.of_step next ?_ fun u hut => ?_
    · have hkind : (Loop.inside : Loop C).kind = .dequeue := rfl
      simp [Sys.kind, houtside, Loop.after_kind, inside, hkind]
    · cases u with
      | inl u => rfl
      | inr v => simp [Sys.kind, Function.update_of_ne (fun heq => hut (congrArg Sum.inr heq) : v ≠ w)]
  | start taken => exact h.of_loop (by rw [taken]; rfl)
  | finish running _ => exact h.of_loop (by rw [running]; rfl)
  | destruct none _ =>
    intro u
    cases u with
    | inl u => simpa [Sys.kind, none, Destructor.kind] using h (.inl u)
    | inr v => exact h (.inr v)
  | @call t q flagged next =>
    have houtside := apart.quiet (by simp [flagged]) (.inl t)
    refine h.of_call next (by simp) (by simp [Sys.kind, houtside, Destructor.kind, Threads.Pc.start, Threads.Pc.kind])
      fun u hut => ?_
    cases u with
    | inl u =>
      have hne : t ≠ u := fun heq => hut (congrArg Sum.inl heq.symm)
      simp [Sys.kind, flagged, Destructor.kind, hne]
    | inr v => rfl
  | @releasing t q releasing next =>
    have houtside := apart.quiet (by simp [releasing]) (.inl t)
    refine h.of_step next ?_ fun u hut => ?_
    · by_cases hidle : (q.pc (.inl t)).isIdle = true <;> simp [Sys.kind, houtside, releasing, Destructor.kind, hidle]
    · cases u with
      | inl u =>
        have hne : t ≠ u := fun heq => hut (congrArg Sum.inl heq.symm)
        by_cases hidle : (q.pc (.inl t)).isIdle = true <;> simp [Sys.kind, releasing, Destructor.kind, hidle, hne]
      | inr v => rfl

theorem coupled_of_run (run : (system S W C).Run xs s) : Apart s ∧ Coupled s := by
  refine run.always (P := fun s => Apart s ∧ Coupled s) ?_ fun _ h hn => ?_
  · exact ⟨⟨fun _ hw => absurd rfl hw, fun hne => absurd rfl hne⟩, fun t => by cases t <;> rfl⟩
  · have hs := (next_step hn).2
    exact ⟨h.1.step hs, h.2.step h.1 hs⟩

end Dans.Executor
