import Mathlib.Data.Finset.Max
import Dans.Theorems.Pops
import Dans.Theorems.Tasks

/-! The workers of an executor. A worker waits only at the gate of the queue and only while no task does; and with a single
    worker no check of the queue fails and no empty list is popped. -/

namespace Dans.Threads
open MultiQueue

variable {Tid T : Type}

/-! ### Where threads can be stuck -/

/-- How many locks a thread at this point may have to wait for: whoever holds a lock that it waits for is at a point with
    a smaller number. -/
def Pc.rank : Pc T → Nat
  | enqInsert _ | enqMap _ _ | deqFlag _ | deqTest _ | deqPop _ | deqMap _ _ | purgeBody _ | oneBody _ | allBody => 0
  | enqMapLock _ _ | deqMapLock _ _ => 1
  | enqQueue _ | deqQueue _ | oneQueue _ => 2
  | enqPurge _ | deqPurge _ => 3
  | purgeLock _ | oneLock _ | allLock => 4
  | idle _ | deqGate _ => 5

theorem Pc.rank_of_mapLock {c : Pc T} (h : c.mapLock = true) : c.rank = 0 := by
  cases c <;> first | rfl | cases h

theorem Pc.rank_of_queueLock {c : Pc T} {p : Priority} (h : c.queueLock = some p) : c.rank ≤ 1 := by
  cases c <;> first | exact Nat.zero_le _ | exact Nat.le_refl _ | cases h

theorem Pc.rank_of_exclusive {c : Pc T} (h : c.exclusive = true) : c.rank ≤ 2 := by
  cases c <;> first | exact Nat.zero_le _ | exact Nat.le_refl _ | cases h

theorem Pc.rank_of_shared {c : Pc T} (h : c.shared = true) : c.rank ≤ 2 := by
  cases c <;> first | exact Nat.zero_le _ | exact Nat.le_refl _ | exact Nat.le_succ _ | cases h

section Stuck
variable [DecidableEq Tid] [Fintype Tid] {s : Sys Tid T} {t : Tid}

/-- A thread of the smallest number can take a step, unless it is outside or at a gate. -/
theorem step_of_least (least : ∀ u, (s.pc t).rank ≤ (s.pc u).rank) (lt : (s.pc t).rank < 5) : (s.step t).isSome = true := by
  have hmap : 0 < (s.pc t).rank → s.MapFree := fun hpos u => by
    refine (Bool.not_eq_true _).mp fun hu => ?_
    have := least u
    have := Pc.rank_of_mapLock hu
    omega
  have hqueue : 1 < (s.pc t).rank → ∀ p, s.QueueFree p := fun hpos p u hu => by
    have := least u
    have := Pc.rank_of_queueLock hu
    omega
  have hwriter : 2 < (s.pc t).rank → s.NoWriter := fun hpos u => by
    refine (Bool.not_eq_true _).mp fun hu => ?_
    have := least u
    have := Pc.rank_of_exclusive hu
    omega
  have hpurge : 2 < (s.pc t).rank → s.NoPurgeLock := fun hpos u => by
    refine ⟨hwriter hpos u, (Bool.not_eq_true _).mp fun hu => ?_⟩
    have := least u
    have := Pc.rank_of_shared hu
    omega
  unfold Sys.step
  cases hc : s.pc t <;> rw [hc] at lt hmap hqueue hwriter hpurge <;> dsimp only
  case idle | deqGate => exact absurd lt (Nat.lt_irrefl _)
  case enqMapLock | deqMapLock => rw [if_pos (hmap Nat.zero_lt_one)]; rfl
  case enqQueue job =>
    split
    · rw [if_pos (hqueue Nat.one_lt_two _)]; rfl
    · rfl
  case oneQueue p =>
    split
    · rw [if_pos (hqueue Nat.one_lt_two _)]; rfl
    · rfl
  case deqQueue p => rw [if_pos (hqueue Nat.one_lt_two _)]; rfl
  case enqPurge | deqPurge => rw [if_pos (hwriter (Nat.lt_succ_self 2))]; rfl
  case purgeLock | oneLock | allLock => rw [if_pos (hpurge (show 2 < 4 by decide))]; rfl
  case deqFlag p => split <;> rfl
  case deqTest p =>
    split
    · rfl
    · split <;> rfl
  case deqPop p => split <;> rfl
  case deqMap p n => split <;> rfl
  case purgeBody id => split <;> rfl
  all_goals rfl

/-- Where no thread can take a step, each is outside or in front of a closed gate. -/
theorem stuck_at_gates (running : s.fault = none) (stuck : ∀ t, s.next (.step t) = none) (t : Tid) :
    (s.pc t).isIdle = true ∨ ∃ p, s.pc t = .deqGate p ∧ s.q.notEmpty p = false := by
  have hstep : ∀ u, s.step u = none := fun u => by simpa [Sys.next, running] using stuck u
  have hrank : ¬(s.pc t).rank < 5 := fun hlt => by
    obtain ⟨u, -, hleast⟩ := Finset.exists_min_image Finset.univ (fun u => (s.pc u).rank) ⟨t, Finset.mem_univ t⟩
    have hstuck := step_of_least (fun v => hleast v (Finset.mem_univ v)) ((hleast t (Finset.mem_univ t)).trans_lt hlt)
    simp [hstep u] at hstuck
  have ht := hstep t
  unfold Sys.step at ht
  cases hc : s.pc t <;> simp [hc, Pc.rank] at hrank ht
  · exact Or.inl rfl
  · next p => exact Or.inr ⟨p, rfl, ht⟩

end Stuck

/-! ### Gates of a queue of one priority -/

section Plain
variable [DecidableEq Tid] {s s' : Sys Tid T} {l : Label Tid T} {p : Priority}

/-- A list that held a job is not empty when the only `Dequeue` comes to pop it. -/
theorem past_effect (h : ∀ t p, (s.pc t).past = some p → s.q.priorityQs p ≠ [])
    (one : Exclusion.One (fun c : Pc T => c.kind = .dequeue) s.pc) (nopurge : NoPurge s) (he : Effect s l s') :
    ∀ t p, (s'.pc t).past = some p → s'.q.priorityQs p ≠ [] := by
  have kind : ∀ {c : Pc T} {p}, c.past = some p → c.kind = .dequeue := fun {c p} hc => by
    cases c <;> simp [Pc.past] at hc <;> rfl
  -- A step that takes nothing from the lists, to a point in front of the pop only where the list holds a job.
  have become : ∀ {t q} {c : Pc T}, (∀ p, s.q.priorityQs p ≠ [] → q.priorityQs p ≠ []) →
      (∀ p, c.past = some p → q.priorityQs p ≠ []) →
      ∀ u p, ((s.become t q c).pc u).past = some p → q.priorityQs p ≠ [] := by
    intro t q c hq hc u p hu
    simp only [Sys.become, Function.update_apply] at hu
    split at hu
    · exact hc p hu
    · exact hq p (h u p hu)
  cases he with
  | @call t op _ _ => exact become (fun _ => id) fun p hp => by cases op <;> cases hp
  | @move t c c' pc goes =>
    refine become (fun _ => id) fun p hp => ?_
    rcases goes.past hp with hne | hpast
    · exact hne
    · exact h t p (pc ▸ hpast)
  | @insert t job pc =>
    refine become (fun p hne => ?_) fun p hp => by cases hp
    rw [insertNode_priorityQs, Function.update_apply]
    split
    · simp
    · exact hne
  | @pop t p n q pc popped =>
    intro u p' hu
    simp only [Sys.become, Function.update_apply] at hu
    split at hu
    · cases hu
    · next hut => exact absurd (one u t (kind hu) (by rw [pc]; rfl)) hut
  | take _ taken =>
    obtain ⟨-, -, -, -, -, -, -, -, -, hlists, -⟩ := takeEntry_ok taken
    exact become (fun p hne => by rwa [hlists]) fun p hp => by cases hp
  | purge pc _ => exact absurd pc (nopurge _ _).2
  | entry _ | one _ => exact become (fun p hne => by simpa using hne) fun p hp => by cases hp
  | gate _ _ | flag _ _ | released _ _ _ | all _ => exact become (fun _ => id) fun p hp => by cases hp
  | fail _ _ | callFail _ => exact h

/-- Where whoever comes to pop finds a job, nothing stops the process. -/
theorem Effect.goes_on (he : Effect s l s') (hand : HandOver s) (locks : Locks s) (hplain : ∀ t, (s.pc t).Plain)
    (hok : plain s l) (past : ∀ t p, (s.pc t).past = some p → s.q.priorityQs p ≠ []) (hnone : s.fault = none) :
    s'.fault = none := by
  refine Option.eq_none_iff_forall_ne_some.mpr fun f hf => ?_
  obtain ⟨-, t, p, pc, hempty⟩ := he.stops hand locks hplain hok hnone hf
  exact past t p (by rw [pc]; rfl) hempty

variable [Fintype Tid] {maxPriority : Priority} {xs : List (Sys Tid T × Label Tid T)}

theorem releaseOne_of_plain (run : (system Tid T maxPriority).Run xs s) (hok : Lts.Meets plain xs) (p : Priority) :
    s.q.releaseOne p = false := by
  refine (noReleaseOne_of_run run fun x hx => ?_).flags p
  obtain ⟨s, l⟩ := x
  have hplain := hok (s, l) hx
  cases l with
  | step t => rfl
  | call t op =>
    cases op with
    | releaseOne p => exact hplain.elim
    | _ => rfl

/-- A list that holds a job has an open gate, or somebody past the gate on the way to the list. -/
theorem passable_of_plain (run : (system Tid T maxPriority).Run xs s) (hok : Lts.Meets plain xs) :
    ∀ p, s.q.priorityQs p ≠ [] → s.Passable p := by
  induction run with
  | init => exact fun p hne => absurd rfl hne
  | @step xs s s' l run hn ih =>
    obtain ⟨hbefore, -⟩ := hok.of_append
    refine fun p => passable_effect (ih hbefore) (handOver_of_run run) (locks_of_run run) ?_ (next_effect hn)
    cases l with
    | call _ _ => rfl
    | step t =>
      dsimp only [sparesFlag]
      split
      · simp [releaseOne_of_plain run hbefore]
      · rfl

end Plain

end Dans.Threads

namespace Dans.Executor

variable {S W C : Type} [DecidableEq S] [DecidableEq W] [Fintype S] [Fintype W]
  {s s' : Sys S W C} {l : Label S W C} {xs : List (Sys S W C × Label S W C)}

/-! ### Waiting workers and waiting tasks -/

/-- No thread of the executor can take a step: the workers wait or run closures, nobody is in `Submit`, and the
    destructor has not begun or joins. -/
structure Stalled (s : Sys S W C) : Prop where
  running : s.queue.fault = none
  submits : ∀ t, s.next (.proceed t) = none
  workers : ∀ w, s.next (.loop w) = none
  destructor : s.next .release = none

theorem Stalled.queue (h : Stalled s) (coupled : Coupled s) (t : Thread S W) : s.queue.next (.step t) = none := by
  have hidle : s.kind t = .outside → s.queue.next (.step t) = none := fun hkind => by
    have hpc : (s.queue.pc t).isIdle = true := Threads.Pc.isIdle_iff.mpr ((coupled t).trans hkind)
    cases hc : s.queue.pc t <;> simp [hc, Threads.Pc.isIdle] at hpc
    simp [Threads.Sys.next, Threads.Sys.step, hc]
  cases hsubmit : s.submit t with
  | enqueueing =>
    have := h.submits t
    simpa [Sys.next, h.running, Sys.proceed, hsubmit] using this
  | outside | incremented _ =>
    cases t with
    | inl t =>
      cases hdes : s.destructor with
      | releasing u =>
        by_cases hut : u = t
        · have := h.destructor
          simpa [Sys.next, h.running, Sys.release, hdes, hut] using this
        · exact hidle (by simp [Sys.kind, hsubmit, hdes, Destructor.kind, hut])
      | none | flagged _ | joining => exact hidle (by simp [Sys.kind, hsubmit, hdes, Destructor.kind])
    | inr w =>
      cases hloop : s.loop w with
      | inside =>
        have := h.workers w
        simpa [Sys.next, h.running, Sys.turn, hloop] using this
      | test | taken _ | running _ | exited => exact hidle (by simp [Sys.kind, hsubmit, hloop, Loop.kind])

theorem Stalled.worker (h : Stalled s) (coupled : Coupled s) (apart : Apart s) (w : W) :
    (∃ task, s.loop w = .running task) ∨ s.loop w = .exited ∨
      s.loop w = .inside ∧ ∃ p, s.queue.pc (.inr w) = .deqGate p ∧ s.queue.q.notEmpty p = false := by
  have hw := h.workers w
  cases hloop : s.loop w with
  | running task => exact Or.inl ⟨task, rfl⟩
  | exited => exact Or.inr (Or.inl rfl)
  | taken task => simp [Sys.next, h.running, Sys.turn, hloop] at hw
  | test =>
    -- A worker in front of the test can leave or call `Dequeue`.
    have hidle : (s.queue.pc (.inr w)).isIdle = true := by
      rw [Threads.Pc.isIdle_iff, coupled, (apart.kind_worker (w := w) (by simp [hloop])).2, hloop]
      rfl
    by_cases hnone : s.destructor = .none <;>
      simp [Sys.next, h.running, Sys.turn, hloop, hnone, Threads.Sys.next, hidle] at hw
  | inside =>
    refine Or.inr (Or.inr ⟨rfl, ?_⟩)
    refine (Threads.stuck_at_gates h.running (h.queue coupled) (.inr w)).resolve_left fun hidle => ?_
    rw [Threads.Pc.isIdle_iff, coupled, (apart.kind_worker (w := w) (by simp [hloop])).2, hloop] at hidle
    cases hidle

/-- No worker waits while a task does: where nothing can move on, the list is empty or every worker is busy with a closure
    or has returned. -/
theorem workers_wait_for_tasks (run : (system S W C).Run xs s) (stalled : Stalled s) :
    s.queue.q.priorityQs 0 = [] ∨ ∀ w, (∃ task, s.loop w = .running task) ∨ s.loop w = .exited := by
  obtain ⟨apart, coupled⟩ := coupled_of_run run
  by_contra hboth
  obtain ⟨hne, hwaits⟩ := not_or.mp hboth
  obtain ⟨w, hw⟩ := not_forall.mp hwaits
  obtain ⟨hrunning, hexited⟩ := not_or.mp hw
  obtain ⟨-, p, hpc, hgate⟩ := ((stalled.worker coupled apart w).resolve_left hrunning).resolve_left hexited
  have hplain := Threads.plain_of_run (queue_run run) queueSteps_plain (.inr w)
  rw [hpc] at hplain
  have hp : p = 0 := hplain
  -- The gate is closed, so somebody is past it, who can go on.
  rcases Threads.passable_of_plain (queue_run run) queueSteps_plain 0 hne with hopen | ⟨t, ht⟩
  · rw [hp, hopen] at hgate
    cases hgate
  · rcases Threads.stuck_at_gates stalled.running (stalled.queue coupled) t with hidle | ⟨p', hpc', -⟩
    · cases hc : s.queue.pc t <;> simp [hc, Threads.Pc.isIdle, Threads.Pc.holds] at hidle ht
    · simp [hpc', Threads.Pc.holds] at ht

/-- The only worker runs a closure, and another task waits. -/
theorem workers_wait_for_tasks_busy : ∃ xs s, (system Unit Unit Nat).Run xs s ∧ Stalled s ∧
    (s.queue.q.priorityQs 0).length = 1 ∧
    (s.queue.q.priorityQs 0 = [] ∨ ∀ w, (∃ task, s.loop w = .running task) ∨ s.loop w = .exited) := by
  obtain ⟨xs, s, run, -, hs⟩ := Lts.run_of_exec_any (system Unit Unit Nat)
    (.submit (.inl ()) ⟨10, 1⟩ :: List.replicate 6 (.proceed (.inl ())) ++
      .submit (.inl ()) ⟨11, 2⟩ :: List.replicate 6 (.proceed (.inl ())) ++ List.replicate 10 (.loop ()))
    (fun s => decide (s.queue.fault = none ∧ (∀ t, (s.next (.proceed t)).isNone = true) ∧
      (∀ w, (s.next (.loop w)).isNone = true) ∧ (s.next .release).isNone = true ∧ (s.queue.q.priorityQs 0).length = 1))
    (by decide)
  obtain ⟨hfault, hsubmits, hworkers, hrelease, hlength⟩ := of_decide_eq_true hs
  have stalled : Stalled s := ⟨hfault, fun t => Option.isNone_iff_eq_none.mp (hsubmits t),
    fun w => Option.isNone_iff_eq_none.mp (hworkers w), Option.isNone_iff_eq_none.mp hrelease⟩
  exact ⟨xs, s, run, stalled, hlength, workers_wait_for_tasks run stalled⟩

/-- One worker alone never pops an empty list, and no check of the queue fails. That the first `Enqueue` opens a gate that
    nobody has closed is no fault of the model. -/
theorem one_worker_never_stops [Subsingleton W] (run : (system S W C).Run xs s) : s.queue.fault = none := by
  refine (run.always (P := fun s => s.queue.fault = none ∧ ∀ t p, (s.queue.pc t).past = some p →
    s.queue.q.priorityQs p ≠ []) ⟨rfl, fun t p hp => by cases hp⟩ ?_).1
  intro xs s l s' run h hn
  obtain ⟨-, coupled⟩ := coupled_of_run run
  have hqueue := queue_run run
  have hstep := (next_step hn).2.queue
  cases hm : s.queueLabel l with
  | none =>
    rw [hm] at hstep
    exact (show s'.queue = s.queue from hstep) ▸ h
  | some m =>
    rw [hm] at hstep
    have he := Threads.next_effect hstep
    -- Only workers dequeue, and there is one.
    have hone : Exclusion.One (fun c : Threads.Pc (ExecutorCallback C) => c.kind = .dequeue) s.queue.pc := by
      intro t u ht hu
      obtain ⟨w, rfl, -⟩ := worker_of_dequeue ((coupled t).symm.trans ht)
      obtain ⟨v, rfl, -⟩ := worker_of_dequeue ((coupled u).symm.trans hu)
      rw [Subsingleton.elim w v]
    have hnopurge := (Threads.inOrder_of_run hqueue fun x hx => Threads.plain_callsNoPurge (queueSteps_plain x hx)).1
    exact ⟨he.goes_on (Threads.handOver_of_run hqueue) (Threads.locks_of_run hqueue)
      (Threads.plain_of_run hqueue queueSteps_plain) (plain_queueLabel hm) h.2 h.1, Threads.past_effect h.2 hone hnopurge he⟩

theorem one_worker_never_stops_unit : ∃ xs s, (system Unit Unit Nat).Run xs s ∧ s.loop () = .running ⟨10, 1⟩ ∧
    s.queue.fault = none := by
  obtain ⟨xs, s, run, -, hs⟩ := Lts.run_of_exec_any (system Unit Unit Nat)
    (.submit (.inl ()) ⟨10, 1⟩ :: List.replicate 6 (.proceed (.inl ())) ++ List.replicate 10 (.loop ()))
    (fun s => decide (s.loop () = .running ⟨10, 1⟩)) (by decide)
  exact ⟨xs, s, run, of_decide_eq_true hs, one_worker_never_stops run⟩

/-- Two workers and one task: the gate of the only priority is open from the start, a worker passes it before the task
    comes and opens it again for the other, and both come to pop. -/
theorem two_workers_pop_empty : ∃ xs s, (system Unit Bool Nat).Run xs s ∧ s.queue.fault = some .popEmpty := by
  obtain ⟨xs, s, run, -, hs⟩ := Lts.run_of_exec_any (system Unit Bool Nat)
    (.loop false :: .loop false :: .submit (.inl ()) ⟨10, 1⟩ :: List.replicate 6 (.proceed (.inl ())) ++
      List.replicate 5 (.loop true) ++ List.replicate 7 (.loop false) ++ List.replicate 2 (.loop true))
    (fun s => decide (s.queue.fault = some .popEmpty)) (by decide)
  exact ⟨xs, s, run, of_decide_eq_true hs⟩

end Dans.Executor
