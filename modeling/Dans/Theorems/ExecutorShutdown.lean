import Dans.Theorems.Workers

/-! Destroying an executor. The workers that are in `Dequeue` when `ReleaseQueues` returns can each take one more task
    and leave, and a worker that pops the last task leaves the gate closed: if some tasks wait, but fewer than workers
    ask for one, the others wait for good and the destructor never ends. -/

namespace Dans.Threads
open MultiQueue

variable {Tid T : Type} [DecidableEq Tid] [Fintype Tid] {s : Sys Tid T} {xs : List (Sys Tid T × Label Tid T)}
  {maxPriority : Priority}

/-- Where no `Enqueue` opens a gate that a `Dequeue` has just passed, nothing stops the process. -/
theorem admits_of_plain (run : (system Tid T maxPriority).Run xs s) (hplain : Lts.Meets plain xs)
    (hclear : Lts.Meets (fun s l => opensClear s l = true) xs) : Admits s ∧ s.fault = none := by
  induction run with
  | init => exact ⟨⟨fun _ _ hne => absurd rfl hne, fun _ hne => absurd rfl hne, fun t p hp => by cases hp⟩, rfl⟩
  | @step xs s s' l run hn ih =>
    obtain ⟨hbefore, hlast⟩ := hplain.of_append
    obtain ⟨hbefore', hlast'⟩ := hclear.of_append
    obtain ⟨admits, hnone⟩ := ih hbefore hbefore'
    have hand := handOver_of_run run
    have locks := locks_of_run run
    refine ⟨admits.effect hand locks (fun t job hl pc => ?_) (next_effect hn),
      (next_effect hn).goes_on hand locks (plain_of_run run hbefore) (hlast _ (List.mem_singleton_self _)) admits.past hnone⟩
    have hok := hlast' _ (List.mem_singleton_self _)
    dsimp only at hok
    rw [hl] at hok
    simpa [opensClear, pc] using hok

/-- In `Dequeue`, and no node popped yet. -/
def Pc.asks : Pc T → Bool
  | deqGate _ | deqFlag _ | deqPurge _ | deqTest _ | deqQueue _ | deqPop _ => true
  | _ => false

/-- How many steps a `Dequeue` of a released queue has left. -/
def Pc.left : Pc T → Nat
  | deqGate _ => 11
  | deqFlag _ => 10
  | deqPurge _ => 9
  | deqTest _ => 8
  | deqQueue _ => 7
  | deqPop _ => 6
  | deqMapLock _ _ => 5
  | deqMap _ _ => 4
  | _ => 0

end Dans.Threads

namespace Dans.Executor
open MultiQueue

variable {S W C : Type} [DecidableEq S] [DecidableEq W] [Fintype S] [Fintype W]
  {s s' : Sys S W C} {l : Label S W C} {xs : List (Sys S W C × Label S W C)}

def Loop.left : Loop C → Nat
  | taken _ => 3
  | running _ => 2
  | test => 1
  | inside | exited => 0

/-- How many threads are in `Dequeue` without a task. -/
def Sys.asking (s : Sys S W C) : Nat := Tally.tally (fun c => if c.asks then 1 else 0) s.queue.pc

/-- How many tasks wait. -/
def Sys.waiting (s : Sys S W C) : Nat := (s.queue.q.priorityQs 0).length

/-- How many steps the workers have left once the queue is released. -/
def Sys.left (s : Sys S W C) : Nat := Tally.tally Loop.left s.loop + Tally.tally Threads.Pc.left s.queue.pc

/-! ### What happens after `ReleaseQueues` -/

/-- The destructor joins the workers, and each `Dequeue` that comes to pop finds a task. -/
structure Shut (s : Sys S W C) : Prop where
  reached : ∃ xs, (system S W C).Run xs s
  joining : s.destructor = .joining
  released : s.queue.q.released = true
  running : s.queue.fault = none
  admits : Threads.Admits s.queue

/-- What a worker can do then. -/
inductive Turns (s : Sys S W C) : Sys S W C → Prop where
  | leave {w : W} (test : s.loop w = .test) : Turns s { s with loop := Function.update s.loop w .exited }
  | start {w : W} {task : ExecutorCallback C} (taken : s.loop w = .taken task) :
      Turns s { s with loop := Function.update s.loop w (.running task) }
  | finish {w : W} {task : ExecutorCallback C} (running : s.loop w = .running task) :
      Turns s { s with loop := Function.update s.loop w .test }
  | move {w : W} {c : Threads.Pc (ExecutorCallback C)} (inside : s.loop w = .inside)
      (asks : c.asks = (s.queue.pc (.inr w)).asks) (holds : c.holds = (s.queue.pc (.inr w)).holds)
      (left : c.left < (s.queue.pc (.inr w)).left) :
      Turns s { s with queue := s.queue.goto (.inr w) c, loop := Function.update s.loop w .inside }
  | gate {w : W} (inside : s.loop w = .inside) (pc : s.queue.pc (.inr w) = .deqGate 0)
      (opened : s.queue.q.notEmpty 0 = true) :
      Turns s
        { s with
          queue := s.queue.become (.inr w) (s.queue.q.closeGate 0) (.deqFlag 0), loop := Function.update s.loop w .inside }
  | null {w : W} (inside : s.loop w = .inside) (pc : s.queue.pc (.inr w) = .deqTest 0)
      (empty : s.queue.q.priorityQs 0 = []) :
      Turns s
        { s with
          queue := s.queue.become (.inr w) (s.queue.q.openGate 0) (.idle (some (.job none)))
          loop := Function.update s.loop w .test }
  | pop {w : W} {n : Node} {q : MultiQueue (ExecutorCallback C)} (inside : s.loop w = .inside)
      (pc : s.queue.pc (.inr w) = .deqPop 0) (popped : s.queue.q.popNode 0 = .ok (n, q)) :
      Turns s
        { s with queue := s.queue.become (.inr w) q (.deqMapLock 0 n), loop := Function.update s.loop w .inside }
  | take {w : W} {n : Node} {job : Job (ExecutorCallback C)} {q : MultiQueue (ExecutorCallback C)}
      (inside : s.loop w = .inside) (pc : s.queue.pc (.inr w) = .deqMap 0 n)
      (taken : s.queue.q.takeEntry 0 n.jobId = .ok (job, q)) :
      Turns s
        { s with
          queue := s.queue.become (.inr w) q (.idle (some (.job (some job))))
          loop := Function.update s.loop w (.taken job.jobData) }

/-- A step of a worker in `Dequeue` of the released queue. -/
theorem Shut.turns_inside (h : Shut s) {w : W} {q : Threads.Sys (Thread S W) (ExecutorCallback C)}
    (inside : s.loop w = .inside) (next : s.queue.next (.step (.inr w)) = some q) :
    Turns s { s with queue := q, loop := Function.update s.loop w (.after (q.pc (.inr w))) } := by
  obtain ⟨xs, run⟩ := h.reached
  obtain ⟨apart, coupled⟩ := coupled_of_run run
  have hqueue := queue_run run
  have hplain := Threads.plain_of_run hqueue queueSteps_plain (.inr w)
  have hkind : (s.queue.pc (.inr w)).kind = .dequeue := by
    rw [coupled, (apart.kind_worker (w := w) (by simp [inside])).2, inside]
    rfl
  have hafter : ∀ {r : MultiQueue (ExecutorCallback C)} {c : Threads.Pc (ExecutorCallback C)},
      Loop.after ((s.queue.become (.inr w) r c).pc (.inr w)) = Loop.after c := fun {r c} => by simp
  cases Threads.next_effect next with
  | move pc goes =>
    rw [pc] at hkind hplain
    have hloop : ∀ {c : Threads.Pc (ExecutorCallback C)}, c.isIdle = false →
        Loop.after ((s.queue.goto (.inr w) c).pc (.inr w)) = .inside := by
      intro c hc
      change Loop.after (Function.update s.queue.pc (.inr w) c (.inr w)) = .inside
      rw [Function.update_self]
      cases c with
      | idle => cases hc
      | _ => rfl
    cases goes with
    | deqAgain _ released => rw [h.released] at released; cases released
    | deqFlag _ | deqPurge _ | deqTest _ | deqQueue _ | deqMapLock _ =>
      rw [hloop rfl]
      exact .move inside (by rw [pc]; rfl) (by rw [pc]; rfl) (by rw [pc]; simp [Threads.Pc.left])
    | _ => cases hkind
  | @gate _ p pc opened =>
    rw [pc] at hplain
    cases (show p = 0 from hplain)
    rw [hafter]
    exact .gate inside pc opened
  | @flag _ p pc flagged =>
    rw [Threads.releaseOne_of_plain hqueue queueSteps_plain] at flagged
    cases flagged
  | @released _ p pc empty _ =>
    rw [pc] at hplain
    cases (show p = 0 from hplain)
    rw [hafter]
    exact .null inside pc empty
  | @pop _ p n q pc popped =>
    rw [pc] at hplain
    cases (show p = 0 from hplain)
    rw [hafter]
    exact .pop inside pc popped
  | @take _ p n job q pc taken =>
    rw [pc] at hplain
    cases (show p = 0 from hplain)
    rw [hafter]
    exact .take inside pc taken
  | @fail _ c f pc faults =>
    have hstops := (Threads.next_effect next).stops (Threads.handOver_of_run hqueue) (Threads.locks_of_run hqueue)
      (Threads.plain_of_run hqueue queueSteps_plain) trivial h.running (f := f) rfl
    obtain ⟨-, t, p, pc', hempty⟩ := hstops
    exact absurd hempty (h.admits.past t p (by rw [pc']; rfl))
  | insert pc | entry pc | purge pc _ | one pc | all pc =>
    rw [pc] at hkind
    cases hkind

theorem Shut.turns (h : Shut s) (hn : s.next l = some s') : Turns s s' := by
  obtain ⟨xs, run⟩ := h.reached
  obtain ⟨apart, -⟩ := coupled_of_run run
  have hquiet := apart.quiet (by simp [h.joining])
  cases (next_step hn).2 with
  | submit none _ | destruct none _ | ask _ none _ => rw [h.joining] at none; cases none
  | enqueue submit _ | enqueueing submit _ => rw [hquiet] at submit; cases submit
  | exit test _ => exact .leave test
  | inside inside next => exact h.turns_inside inside next
  | start taken => exact .start taken
  | finish running _ => exact .finish running
  | call flagged _ => rw [h.joining] at flagged; cases flagged
  | releasing releasing _ => rw [h.joining] at releasing; cases releasing

/-- What a turn does to the tasks that wait and the workers that ask. -/
theorem Turns.counts (h : Turns s s') (admits : Threads.Admits s.queue) :
    s'.waiting = s.waiting ∧ s'.asking = s.asking ∧ (s'.queue.Passable 0 ↔ s.queue.Passable 0) ∨
    s.waiting = s'.waiting + 1 ∧ s.asking = s'.asking + 1 ∧ (s'.waiting = 0 → ¬s'.queue.Passable 0) ∨
    s.waiting = 0 ∧ s'.waiting = 0 ∧ s.asking = s'.asking + 1 ∧ s.queue.Passable 0 ∧ s'.queue.Passable 0 := by
  have asking : ∀ {t c} {q : MultiQueue (ExecutorCallback C)}, Tally.tally (fun c => if c.asks then 1 else 0)
      (s.queue.become t q c).pc + (if (s.queue.pc t).asks then 1 else 0) = s.asking + if c.asks then 1 else 0 :=
    fun {t c q} => Tally.tally_update _ s.queue.pc t c
  cases h with
  | leave _ | start _ | finish _ => exact Or.inl ⟨rfl, rfl, Iff.rfl⟩
  | @move w c inside asks holds left =>
    refine Or.inl ⟨rfl, ?_, or_congr Iff.rfl ?_⟩
    · have := asking (t := .inr w) (c := c) (q := s.queue.q)
      rw [asks] at this
      exact Nat.add_right_cancel this
    · refine exists_congr fun t => ?_
      change (Function.update s.queue.pc (.inr w) c t).holds = some 0 ↔ _
      by_cases ht : t = .inr w
      · rw [ht, Function.update_self, holds]
      · rw [Function.update_of_ne ht]
  | @gate w inside pc opened =>
    refine Or.inl ⟨rfl, ?_, iff_of_true (Or.inr ⟨.inr w, by simp [Threads.Pc.holds]⟩) (Or.inl opened)⟩
    have := asking (t := .inr w) (c := .deqFlag 0) (q := s.queue.q.closeGate 0)
    rw [pc] at this
    exact Nat.add_right_cancel this
  | @null w inside pc empty =>
    have := asking (t := .inr w) (c := .idle (some (.job none))) (q := s.queue.q.openGate 0)
    rw [pc] at this
    have hempty : s.waiting = 0 := by simp [Sys.waiting, empty]
    refine Or.inr (Or.inr ⟨hempty, hempty, this.symm, Or.inr ⟨.inr w, by rw [pc]; rfl⟩, Or.inl ?_⟩)
    simp [openGate]
  | @pop w n q inside pc popped =>
    have := asking (t := .inr w) (c := .deqMapLock 0 n) (q := q)
    rw [pc] at this
    obtain ⟨rest, hlist, hlists, -, -, -, -, -, hgate⟩ := popNode_ok popped
    have hrest : q.priorityQs 0 = rest := by rw [hlists, Function.update_self]
    refine Or.inr (Or.inl ⟨?_, this.symm, fun hzero => ?_⟩)
    · simp [Sys.waiting, hlist, hrest]
    · -- It was the only one past the gate, and leaves it closed.
      have hne : s.queue.q.priorityQs 0 ≠ [] := by simp [hlist]
      have hholds : (s.queue.pc (.inr w)).holds = some 0 := by rw [pc]; rfl
      have hnil : rest = [] := by simpa [Sys.waiting, hrest] using hzero
      rintro (hopen | ⟨t, ht⟩)
      · rw [Threads.become_q, hgate, if_pos hnil, admits.shut 0 _ hne hholds] at hopen
        cases hopen
      · obtain ⟨hother, ht⟩ := Threads.become_pc_other (f := Threads.Pc.holds) rfl ht
        exact hother (admits.one 0 hne _ _ ht hholds)
  | @take w n job q inside pc taken =>
    have := asking (t := .inr w) (c := .idle (some (.job (some job)))) (q := q)
    rw [pc] at this
    obtain ⟨-, -, -, -, -, -, -, -, -, hlists, -⟩ := takeEntry_ok taken
    refine Or.inl ⟨by simp [Sys.waiting, hlists], Nat.add_right_cancel this, or_congr ?_ (exists_congr fun t => ?_)⟩
    · rw [Threads.become_q, (takeEntry_gates taken).notEmpty]
    · change (Function.update s.queue.pc (.inr w) _ t).holds = some 0 ↔ _
      by_cases ht : t = .inr w
      · simp [ht, pc, Threads.Pc.holds]
      · rw [Function.update_of_ne ht]

/-- Each turn brings the workers closer to the end. -/
theorem Turns.left_lt (h : Turns s s') : s'.left < s.left := by
  have loop : ∀ w c, Tally.tally Loop.left (Function.update s.loop w c) + (s.loop w).left =
      Tally.tally Loop.left s.loop + c.left := Tally.tally_update Loop.left s.loop
  have lower : ∀ {w} {b : Loop C} {q : MultiQueue (ExecutorCallback C)} {c : Threads.Pc (ExecutorCallback C)},
      b.left + c.left < (s.loop w).left + (s.queue.pc (.inr w)).left →
      Sys.left { s with queue := s.queue.become (.inr w) q c, loop := Function.update s.loop w b } < s.left := by
    intro w b q c hlt
    have hqueue := Tally.tally_update Threads.Pc.left s.queue.pc (.inr w) c
    have hloop := loop w b
    simp only [Sys.left, Threads.Sys.become]
    omega
  cases h with
  | @leave w test =>
    have := loop w .exited
    simp only [test, Loop.left, Sys.left] at this ⊢
    omega
  | @start w task taken =>
    have := loop w (.running task)
    simp only [taken, Loop.left, Sys.left] at this ⊢
    omega
  | @finish w task running =>
    have := loop w .test
    simp only [running, Loop.left, Sys.left] at this ⊢
    omega
  | move inside _ _ left => exact lower (q := s.queue.q) (by simpa [inside] using left)
  | gate inside pc _ | null inside pc _ | pop inside pc _ | take inside pc _ =>
    exact lower (by simp [inside, pc, Loop.left, Threads.Pc.left])

theorem Shut.step (h : Shut s) (hn : s.next l = some s') : Shut s' := by
  obtain ⟨xs, run⟩ := h.reached
  have hqueue := queue_run run
  have hrun' := run.step hn
  have hstep := (next_step hn).2.queue
  obtain ⟨apart, -⟩ := coupled_of_run run
  have hquiet := apart.quiet (by simp [h.joining])
  have hturn := h.turns hn
  have hjoining : s'.destructor = .joining := by cases hturn <;> exact h.joining
  cases hm : s.queueLabel l with
  | none =>
    rw [hm] at hstep
    have heq : s'.queue = s.queue := hstep
    exact ⟨⟨_, hrun'⟩, hjoining, heq ▸ h.released, heq ▸ h.running, heq ▸ h.admits⟩
  | some m =>
    rw [hm] at hstep
    have he := Threads.next_effect hstep
    have hand := Threads.handOver_of_run hqueue
    have locks := Threads.locks_of_run hqueue
    refine ⟨⟨_, hrun'⟩, hjoining, ?_, he.goes_on hand locks (Threads.plain_of_run hqueue queueSteps_plain)
      (plain_queueLabel hm) h.admits.past h.running, h.admits.effect hand locks ?_ he⟩
    · cases hturn with
      | pop _ _ popped =>
        obtain ⟨-, -, -, -, -, -, hrel, -⟩ := popNode_ok popped
        exact hrel.trans h.released
      | take _ _ taken => exact (takeEntry_gates taken).released.trans h.released
      | leave _ | start _ | finish _ | move _ _ _ _ | gate _ _ _ | null _ _ _ => exact h.released
    · -- Nobody enqueues any more.
      intro t job hl pc
      obtain ⟨-, coupled⟩ := coupled_of_run run
      have hkind := coupled t
      rw [pc, Sys.kind, hquiet t] at hkind
      cases t with
      | inl t => simp [Destructor.kind, h.joining, Threads.Pc.kind] at hkind
      | inr w => cases hloop : s.loop w <;> simp [hloop, Loop.kind, Threads.Pc.kind] at hkind

/-! ### Too few tasks, and enough -/

omit [DecidableEq W] in
theorem inside_of_asking (coupled : Coupled s) (h : 0 < s.asking) : ∃ w, s.loop w = .inside := by
  obtain ⟨t, ht⟩ := Tally.exists_of_tally_pos h
  have hkind : s.kind t = .dequeue := by
    rw [← coupled]
    cases hc : s.queue.pc t <;> simp [hc, Threads.Pc.asks] at ht <;> rfl
  obtain ⟨w, -, hw⟩ := worker_of_dequeue hkind
  exact ⟨w, hw⟩

/-- More workers ask than tasks wait, and the gate stays closed once no task does. -/
structure Short (s : Sys S W C) : Prop where
  shut : Shut s
  few : s.waiting < s.asking
  closed : s.waiting = 0 → ¬s.queue.Passable 0

theorem Short.step (h : Short s) (hn : s.next l = some s') : Short s' := by
  have few := h.few
  have shut := h.shut.step hn
  rcases (h.shut.turns hn).counts h.shut.admits with
    ⟨hwait, hask, hpass⟩ | ⟨hwait, hask, hclosed⟩ | ⟨hzero, -, -, hpass, -⟩
  · exact ⟨shut, by rwa [hwait, hask], by rw [hwait, hpass]; exact h.closed⟩
  · exact ⟨shut, by omega, hclosed⟩
  · exact absurd hpass (h.closed hzero)

/-- A task waits for each worker that asks, or none does and the gate can be passed by one worker after the other. -/
structure Enough (s : Sys S W C) : Prop where
  shut : Shut s
  enough : s.asking ≤ s.waiting ∨ s.waiting = 0 ∧ s.queue.Passable 0

theorem Enough.step (h : Enough s) (hn : s.next l = some s') :
    Enough s' ∧ s'.waiting - s'.asking = s.waiting - s.asking := by
  have enough := h.enough
  rcases (h.shut.turns hn).counts h.shut.admits with
    ⟨hwait, hask, hpass⟩ | ⟨hwait, hask, -⟩ | ⟨hzero, hzero', hask, -, hpass'⟩
  · refine ⟨⟨h.shut.step hn, ?_⟩, by rw [hwait, hask]⟩
    rwa [hwait, hask, hpass]
  · have hle : s.asking ≤ s.waiting := enough.resolve_right fun hnone => by omega
    exact ⟨⟨h.shut.step hn, Or.inl (by omega)⟩, by omega⟩
  · exact ⟨⟨h.shut.step hn, Or.inr ⟨hzero', hpass'⟩⟩, by omega⟩

/-- Nobody is left at the gate where nothing can move on. -/
theorem Enough.exited (h : Enough s) (stuck : ∀ l, s.next l = none) : (∀ w, s.loop w = .exited) ∧ s.asking = 0 := by
  obtain ⟨xs, run⟩ := h.shut.reached
  obtain ⟨apart, coupled⟩ := coupled_of_run run
  have stalled : Stalled s := ⟨h.shut.running, fun t => stuck _, fun w => stuck _, stuck _⟩
  have houtside : ∀ t, (s.queue.pc t).holds = none := fun t => by
    rcases Threads.stuck_at_gates h.shut.running (stalled.queue coupled) t with hidle | ⟨p, hpc, -⟩
    · cases hc : s.queue.pc t <;> simp [hc, Threads.Pc.isIdle, Threads.Pc.holds] at hidle ⊢
    · rw [hpc]
      rfl
  have hexited : ∀ w, s.loop w = .exited := fun w => by
    rcases stalled.worker coupled apart w with ⟨task, hrunning⟩ | hexited | ⟨hinside, p, hpc, hgate⟩
    · -- A closure can always return: nobody submits.
      have hfinish := stuck (.finish w)
      simp [Sys.next, h.shut.running, hrunning, Loop.isRunning, apart.quiet (by simp [h.shut.joining]), Submit.isOutside]
        at hfinish
    · exact hexited
    · have hplain := Threads.plain_of_run (queue_run run) queueSteps_plain (.inr w)
      rw [hpc] at hplain
      cases (show p = 0 from hplain)
      -- The gate is closed with nobody past it, so no task waits and it cannot be passed.
      have hshut : ¬s.queue.Passable 0 := by
        rintro (hopen | ⟨t, ht⟩)
        · rw [hopen] at hgate
          cases hgate
        · rw [houtside t] at ht
          cases ht
      have hask : 1 ≤ s.asking := by
        have := Tally.le_tally (fun c : Threads.Pc (ExecutorCallback C) => if c.asks then 1 else 0) s.queue.pc (.inr w)
        rw [hpc] at this
        exact this
      rcases h.enough with hle | ⟨-, hpass⟩
      · refine absurd (Threads.passable_of_plain (queue_run run) queueSteps_plain 0 fun hnil => ?_) hshut
        have hzero : s.waiting = 0 := by simp [Sys.waiting, hnil]
        omega
      · exact absurd hpass hshut
  refine ⟨hexited, Nat.eq_zero_of_not_pos fun hpos => ?_⟩
  obtain ⟨w, hw⟩ := inside_of_asking coupled hpos
  rw [hexited] at hw
  cases hw

/-! ### The end of `ReleaseQueues` -/

/-- No task is put into the empty queue when a worker has passed the gate. -/
def opensClear (s : Sys S W C) (l : Label S W C) : Bool := (s.queueLabel l).all (Threads.opensClear s.queue)

omit [DecidableEq W] in
theorem queueSteps_clear (h : Lts.Meets (fun s l => opensClear s l = true) xs) :
    Lts.Meets (fun s l => Threads.opensClear s l = true) (queueSteps xs) := by
  intro y hy
  obtain ⟨x, hx, heq⟩ := List.mem_filterMap.mp hy
  obtain ⟨m, hm, rfl⟩ := Option.map_eq_some_iff.mp heq
  simpa [opensClear, hm] using h x hx

/-- When `ReleaseQueues` returns the queue is released, and its gate is open if no task waits. -/
theorem shut_of_release {s₀ : Sys S W C} (run : (system S W C).Run xs s₀)
    (hclear : Lts.Meets (fun s l => opensClear s l = true) xs)
    (hrelease : s₀.next .release = some s) (joining : s.destructor = .joining) :
    Shut s ∧ (s.waiting = 0 → s.queue.Passable 0) := by
  have hqueue := queue_run run
  have hand := Threads.handOver_of_run hqueue
  have locks := Threads.locks_of_run hqueue
  have hplain := Threads.plain_of_run hqueue queueSteps_plain
  obtain ⟨admits, hnone⟩ := Threads.admits_of_plain hqueue queueSteps_plain (queueSteps_clear hclear)
  have hrun : (system S W C).Run (xs ++ [(s₀, .release)]) s := run.step hrelease
  cases (next_step hrelease).2 with
  | call _ _ => cases joining
  | @releasing t q releasing next =>
    have he := Threads.next_effect next
    have hrunning := he.goes_on hand locks hplain trivial admits.past hnone
    have hidle : (q.pc (.inl t)).isIdle = true := by
      dsimp only at joining
      split at joining
      · assumption
      · cases joining
    have hkind : (s₀.queue.pc (.inl t)).kind = .releaseQueues := by
      obtain ⟨apart, coupled⟩ := coupled_of_run run
      rw [coupled, Sys.kind, apart.quiet (by simp [releasing])]
      simp [releasing, Destructor.kind]
    have hmax : s₀.queue.q.maxPrio = kMaxPrioDansExecutor := (Threads.bounded_of_run hqueue).2
    have hadmits : (∀ job, s₀.queue.pc (.inl t) ≠ .enqInsert job) → Threads.Admits q := fun hnot =>
      admits.effect hand locks (fun u job hl pc => by cases hl; exact absurd pc (hnot job)) he
    cases he with
    | @all _ pc =>
      refine ⟨⟨⟨_, hrun⟩, joining, rfl, hrunning, hadmits (by simp [pc])⟩, fun hzero => Or.inl ?_⟩
      have hnil : s₀.queue.q.priorityQs 0 = [] := List.eq_nil_of_length_eq_zero hzero
      simp [releaseQueues, hnil]
    | move pc goes =>
      rw [pc] at hkind
      cases goes with
      | allLock _ => simp [Threads.Sys.goto, Threads.Pc.isIdle] at hidle
      | _ => cases hkind
    | fail _ _ => cases hrunning
    | insert pc | entry pc | gate pc _ | flag pc _ | released pc _ _ | pop pc _ | take pc _ | purge pc _ | one pc =>
      rw [pc] at hkind
      cases hkind

/-- What becomes of an executor once `ReleaseQueues` has returned in its destructor, where no `Enqueue` had opened a gate
    that a `Dequeue` had just passed. With some tasks in the queue, but fewer than workers ask for one, some worker waits
    for good and is never joined; otherwise the workers leave after finitely many steps, having started a task for each of
    them that asked as long as there were any. -/
theorem destructor_joins_or_hangs {s₀ : Sys S W C} (run : (system S W C).Run xs s₀)
    (hclear : Lts.Meets (fun s l => opensClear s l = true) xs)
    (hrelease : s₀.next .release = some s) (joining : s.destructor = .joining) :
    (0 < s.waiting ∧ s.waiting < s.asking → ∀ s', (system S W C).Leads s s' → ∃ w, s'.loop w = .inside) ∧
    (s.waiting = 0 ∨ s.asking ≤ s.waiting → ∀ ls s', (system S W C).execFrom s ls = some s' → ls.length ≤ s.left ∧
      ((∀ l, s'.next l = none) → (∀ w, s'.loop w = .exited) ∧ s'.waiting = s.waiting - s.asking)) := by
  obtain ⟨shut, hopen⟩ := shut_of_release run hclear hrelease joining
  constructor
  · rintro ⟨hsome, hfew⟩ s' leads
    have short : Short s' := leads.invariant (P := Short) ⟨shut, hfew, fun hzero => by omega⟩ Short.step
    obtain ⟨ys, hys⟩ := short.shut.reached
    exact inside_of_asking (coupled_of_run hys).2 (Nat.zero_lt_of_lt short.few)
  · intro hcase ls s' hexec
    have enough : Enough s := ⟨shut, hcase.symm.imp_right fun hzero => ⟨hzero, hopen hzero⟩⟩
    obtain ⟨⟨enough', hrest⟩, hle⟩ := Lts.execFrom_ranked (r := Sys.left)
      (P := fun s' : Sys S W C => Enough s' ∧ s'.waiting - s'.asking = s.waiting - s.asking)
      (fun ⟨henough, heq⟩ hn => by
        obtain ⟨hstep, heq'⟩ := henough.step hn
        exact ⟨⟨hstep, heq'.trans heq⟩, (henough.shut.turns hn).left_lt⟩) ⟨enough, rfl⟩ hexec
    refine ⟨by omega, fun stuck => ?_⟩
    obtain ⟨hexited, hask⟩ := enough'.exited stuck
    exact ⟨hexited, by omega⟩

/-- Both workers ask, and one task waits. -/
theorem destructor_joins_or_hangs_two : ∃ xs s₀ s, (system Unit Bool Nat).Run xs s₀ ∧ s₀.next .release = some s ∧
    s.destructor = .joining ∧ ∀ s', (system Unit Bool Nat).Leads s s' → ∃ w, s'.loop w = .inside := by
  obtain ⟨xs, s₀, run, -, hs⟩ := Lts.run_of_exec_any
    ((system Unit Bool Nat).restrict fun s l => opensClear s l = true)
    (List.replicate 5 (.loop false) ++ .loop true :: .submit (.inl ()) ⟨10, 1⟩ :: List.replicate 6 (.proceed (.inl ())) ++
      .destruct () :: List.replicate 2 .release)
    (fun s => (s.next .release).any fun s : Sys Unit Bool Nat =>
      decide (s.destructor = .joining ∧ s.waiting = 1 ∧ s.asking = 2)) (by decide)
  obtain ⟨run, hclear⟩ := run.of_restrict
  obtain ⟨s, hrelease, hs⟩ := (Option.any_eq_true _ _).mp hs
  obtain ⟨joining, hwaiting, hasking⟩ := of_decide_eq_true hs
  have hhangs := (destructor_joins_or_hangs run hclear hrelease joining).1
  exact ⟨xs, s₀, s, run, hrelease, joining, hhangs (by rw [hwaiting, hasking]; exact ⟨Nat.zero_lt_one, Nat.one_lt_two⟩)⟩

end Dans.Executor
