import Mathlib.Logic.Relation
import Dans.Theorems.HandOver
import Dans.Theorems.Refinement

/-! The two models of the queue agree: a thread that runs a call while no other call is in progress does
    what the call as a whole does, and between calls the queue is as sequential calls leave it. -/

namespace Dans.Threads
open MultiQueue

variable {Tid T : Type} [DecidableEq Tid] {s : Sys Tid T} {t : Tid} {q : MultiQueue T} {c c' : Pc T}

/-! ### One thread inside -/

@[simp] theorem become_become {q' : MultiQueue T} : (s.become t q c).become t q' c' = s.become t q' c' := by
  simp [Sys.become]

@[simp] theorem become_goto : (s.become t q c).goto t c' = s.become t q c' := by
  simp [Sys.become, Sys.goto]

@[simp] theorem become_pc : (s.become t q c).pc t = c := by simp [Sys.become]

@[simp] theorem become_q : (s.become t q c).q = q := rfl

@[simp] theorem become_fault : (s.become t q c).fault = s.fault := rfl

theorem become_pc_other {α : Type} {f : Pc T → Option α} {u : Tid} {a : α} (hself : f c = none)
    (hu : f ((s.become t q c).pc u) = some a) : u ≠ t ∧ f (s.pc u) = some a := by
  simp only [Sys.become, Function.update_apply] at hu
  split at hu
  · simp [hself] at hu
  · exact ⟨‹_›, hu⟩

theorem forall_become (quiet : s.Quiet) {f : Pc T → Prop} (hidle : ∀ ret, f (.idle ret)) :
    (∀ u, f ((s.become t q c).pc u)) ↔ f c := by
  refine ⟨fun h => by simpa using h t, fun hc u => ?_⟩
  simp only [Sys.become, Function.update_apply]
  split
  · exact hc
  · have hu := quiet u
    cases hpc : s.pc u <;> simp [hpc, Pc.isIdle] at hu
    exact hidle _

theorem become_noWriter (quiet : s.Quiet) : (s.become t q c).NoWriter ↔ c.exclusive = false :=
  forall_become (f := fun c => c.exclusive = false) quiet fun _ => rfl

theorem become_noPurgeLock (quiet : s.Quiet) : (s.become t q c).NoPurgeLock ↔ c.exclusive = false ∧ c.shared = false :=
  forall_become (f := fun c => c.exclusive = false ∧ c.shared = false) quiet fun _ => ⟨rfl, rfl⟩

theorem become_queueFree (quiet : s.Quiet) (p : Priority) : (s.become t q c).QueueFree p ↔ c.queueLock ≠ some p :=
  forall_become (f := fun c => c.queueLock ≠ some p) quiet fun _ => nofun

theorem become_mapFree (quiet : s.Quiet) : (s.become t q c).MapFree ↔ c.mapLock = false :=
  forall_become (f := fun c => c.mapLock = false) quiet fun _ => rfl

variable [Fintype Tid]

/-- Thread `t` takes some steps, and no other thread takes any. -/
def Alone (t : Tid) : Sys Tid T → Sys Tid T → Prop := Relation.ReflTransGen fun s s' => s.next (.step t) = some s'

theorem Alone.refl (s : Sys Tid T) : Alone t s s := Relation.ReflTransGen.refl

theorem Alone.cons {s s'' : Sys Tid T} (s' : Sys Tid T) (h : s.next (.step t) = some s') (h' : Alone t s' s'') :
    Alone t s s'' :=
  Relation.ReflTransGen.head h h'

section Calls
variable (quiet : s.Quiet) (running : s.fault = none)
include quiet running

theorem enqueue_alone {job : Job T} (hp : job.priority ≤ q.maxPrio) :
    Alone t (s.become t q (.enqPurge job))
      (s.become t ((q.insertNode job).insertEntry job q.nextAddr) (.idle (some .void))) := by
  refine .cons (s.become t q (.enqQueue job)) ?_ <| .cons (s.become t q (.enqInsert job)) ?_ <|
    .cons (s.become t (q.insertNode job) (.enqMapLock job q.nextAddr)) ?_ <|
    .cons (s.become t (q.insertNode job) (.enqMap job q.nextAddr)) ?_ <| .cons _ ?_ (.refl _)
  · simp [Sys.next, Sys.step, running, become_noWriter quiet, Pc.exclusive]
  · simp [Sys.next, Sys.step, running, become_queueFree quiet, Pc.queueLock, hp]
  · simp [Sys.next, Sys.step, running]
  · simp [Sys.next, Sys.step, running, become_mapFree quiet, Pc.mapLock]
  · simp [Sys.next, Sys.step, running]

/-- One pass through the loop of `Dequeue`, and what follows it. -/
theorem dequeueTurn_alone (p : Priority) : match q.dequeueTurn p with
    | .waits => q.notEmpty p = false
    | .again q' => Alone t (s.become t q (.deqGate p)) (s.become t q' (.deqGate p)) ∧ q'.notEmpty p = false
    | .returns q' job => Alone t (s.become t q (.deqGate p)) (s.become t q' (.idle (some (.job job))))
    | .fault f => ∃ s', Alone t (s.become t q (.deqGate p)) s' ∧ s'.fault = some f := by
  by_cases hgate : q.notEmpty p = true
  swap
  · simp [dequeueTurn, Bool.eq_false_of_not_eq_true hgate]
  have toFlag : ∀ s', Alone t (s.become t (q.closeGate p) (.deqFlag p)) s' → Alone t (s.become t q (.deqGate p)) s' :=
    fun s' => .cons _ (by simp [Sys.next, Sys.step, running, hgate])
  by_cases hflag : q.releaseOne p = true
  · simp only [dequeueTurn, hgate, closeGate_releaseOne, hflag, ↓reduceIte, Bool.true_eq_false]
    refine toFlag _ (.cons _ ?_ (.refl _))
    simp [Sys.next, Sys.step, running, hflag]
  have toTest : ∀ s', Alone t (s.become t (q.closeGate p) (.deqTest p)) s' → Alone t (s.become t q (.deqGate p)) s' := by
    refine fun s' h => toFlag s' (.cons (s.become t (q.closeGate p) (.deqPurge p)) ?_ (.cons _ ?_ h))
    · simp [Sys.next, Sys.step, running, hflag]
    · simp [Sys.next, Sys.step, running, become_noWriter quiet, Pc.exclusive]
  by_cases hempty : q.priorityQs p = []
  · by_cases hrel : q.released = true
    · simp only [dequeueTurn, hgate, closeGate_releaseOne, hflag, closeGate_priorityQs, closeGate_released, hempty, hrel,
        List.isEmpty_nil, Bool.and_true, ↓reduceIte, Bool.true_eq_false, Bool.false_eq_true]
      refine toTest _ (.cons _ ?_ (.refl _))
      simp [Sys.next, Sys.step, running, hempty, hrel]
    · simp only [dequeueTurn, hgate, closeGate_releaseOne, hflag, closeGate_priorityQs, closeGate_released, hempty, hrel,
        List.isEmpty_nil, Bool.and_false, ↓reduceIte, Bool.true_eq_false, Bool.false_eq_true]
      refine ⟨toTest _ (.cons _ ?_ (.refl _)), by simp [closeGate]⟩
      simp [Sys.next, Sys.step, running, hempty, hrel]
  have hne : (q.priorityQs p).isEmpty = false := by simpa using hempty
  have toPop : ∀ s', Alone t (s.become t (q.closeGate p) (.deqPop p)) s' → Alone t (s.become t q (.deqGate p)) s' := by
    refine fun s' h => toTest s' (.cons (s.become t (q.closeGate p) (.deqQueue p)) ?_ (.cons _ ?_ h))
    · simp [Sys.next, Sys.step, running, hne]
    · simp [Sys.next, Sys.step, running, become_queueFree quiet, Pc.queueLock]
  simp only [dequeueTurn, hgate, closeGate_releaseOne, hflag, closeGate_priorityQs, hne, Bool.false_and, ↓reduceIte,
    Bool.true_eq_false, Bool.false_eq_true]
  cases hpop : (q.closeGate p).popNode p with
  | error f =>
    refine ⟨(s.become t (q.closeGate p) (.deqPop p)).fail f, toPop _ (.cons _ ?_ (.refl _)), rfl⟩
    simp [Sys.next, Sys.step, running, hpop]
  | ok x =>
    obtain ⟨n, q₁⟩ := x
    have toMap : ∀ s', Alone t (s.become t q₁ (.deqMap p n)) s' → Alone t (s.become t q (.deqGate p)) s' := by
      refine fun s' h => toPop s' (.cons (s.become t q₁ (.deqMapLock p n)) ?_ (.cons _ ?_ h))
      · simp [Sys.next, Sys.step, running, hpop]
      · simp [Sys.next, Sys.step, running, become_mapFree quiet, Pc.mapLock]
    dsimp only
    cases htake : q₁.takeEntry p n.jobId with
    | error f =>
      refine ⟨(s.become t q₁ (.deqMap p n)).fail f, toMap _ (.cons _ ?_ (.refl _)), rfl⟩
      simp [Sys.next, Sys.step, running, htake]
    | ok y =>
      refine toMap _ (.cons _ ?_ (.refl _))
      simp [Sys.next, Sys.step, running, htake]

theorem purge_alone (id : JobId) : match q.purge id with
    | .ok (count, q') => Alone t (s.become t q (.purgeLock id)) (s.become t q' (.idle (some (.purged count))))
    | .error f => ∃ s', Alone t (s.become t q (.purgeLock id)) s' ∧ s'.fault = some f := by
  have toBody : ∀ s', Alone t (s.become t q (.purgeBody id)) s' → Alone t (s.become t q (.purgeLock id)) s' :=
    fun s' => .cons _ (by simp [Sys.next, Sys.step, running, become_noPurgeLock quiet, Pc.exclusive, Pc.shared])
  cases hpurge : q.purge id with
  | error f =>
    refine ⟨(s.become t q (.purgeBody id)).fail f, toBody _ (.cons _ ?_ (.refl _)), rfl⟩
    simp [Sys.next, Sys.step, running, hpurge]
  | ok x =>
    refine toBody _ (.cons _ ?_ (.refl _))
    simp [Sys.next, Sys.step, running, hpurge]

/-- A call by a thread while no other call is in progress does what the call as a whole does: it returns
    the same, blocks at the gate, or stops the process with the same fault. -/
theorem call_alone (t : Tid) (op : Op T) : match s.q.call op with
    | .done q ret => ∃ s₁, s.next (.call t op) = some s₁ ∧ Alone t s₁ (s.become t q (.idle (some ret)))
    | .blocked q => ∃ s₁ p, s.next (.call t op) = some s₁ ∧ op = .dequeue p ∧
        Alone t s₁ (s.become t q (.deqGate p)) ∧ q.notEmpty p = false
    | .fault f => ∃ s₁ s₂, s.next (.call t op) = some s₁ ∧ Alone t s₁ s₂ ∧ s₂.fault = some f := by
  have idle := quiet t
  cases op with
  | enqueue job =>
    have hcall : s.next (.call t (.enqueue job)) = some (s.become t s.q (.enqPurge job)) := by
      simp only [Sys.next, running, idle]
      rfl
    by_cases hp : job.priority ≤ s.q.maxPrio
    · simp only [call, enqueue, hp, ↓reduceIte]
      exact ⟨_, hcall, enqueue_alone quiet running hp⟩
    · simp only [call, enqueue, hp, ↓reduceIte]
      refine ⟨_, (s.become t s.q (.enqQueue job)).fail .checkPriority, hcall,
        .cons (s.become t s.q (.enqQueue job)) ?_ (.cons _ ?_ (.refl _)), rfl⟩
      · simp [Sys.next, Sys.step, running, become_noWriter quiet, Pc.exclusive]
      · simp [Sys.next, Sys.step, running, hp]
  | dequeue p =>
    by_cases hp : p ≤ s.q.maxPrio
    · have hcall : s.next (.call t (.dequeue p)) = some (s.become t s.q (.deqGate p)) := by
        simp only [Sys.next, running, idle, hp]
        rfl
      have hturn := dequeueTurn_alone (t := t) (q := s.q) quiet running p
      simp only [call, dequeue, hp, ↓reduceIte]
      cases ht : s.q.dequeueTurn p with
      | waits =>
        rw [ht] at hturn
        exact ⟨_, p, hcall, rfl, .refl _, hturn⟩
      | again q =>
        rw [ht] at hturn
        exact ⟨_, p, hcall, rfl, hturn⟩
      | returns q job =>
        rw [ht] at hturn
        exact ⟨_, hcall, hturn⟩
      | fault f =>
        rw [ht] at hturn
        obtain ⟨s', hs', hf⟩ := hturn
        exact ⟨_, s', hcall, hs', hf⟩
    · simp only [call, dequeue, hp, ↓reduceIte]
      refine ⟨s.fail .checkPriority, _, ?_, .refl _, rfl⟩
      simp [Sys.next, running, idle, hp]
  | purge id =>
    have hcall : s.next (.call t (.purge id)) = some (s.become t s.q (.purgeLock id)) := by
      simp only [Sys.next, running, idle]
      rfl
    have hpurge := purge_alone (t := t) (q := s.q) quiet running id
    simp only [call]
    cases hp : s.q.purge id with
    | error f =>
      rw [hp] at hpurge
      obtain ⟨s', hs', hf⟩ := hpurge
      exact ⟨_, s', hcall, hs', hf⟩
    | ok x =>
      rw [hp] at hpurge
      exact ⟨_, hcall, hpurge⟩
  | releaseOne p =>
    have hcall : s.next (.call t (.releaseOne p)) = some (s.become t s.q (.oneLock p)) := by
      simp only [Sys.next, running, idle]
      rfl
    have hlock : (s.become t s.q (.oneLock p)).next (.step t) = some (s.become t s.q (.oneQueue p)) := by
      simp [Sys.next, Sys.step, running, become_noPurgeLock quiet, Pc.exclusive, Pc.shared]
    by_cases hp : p ≤ s.q.maxPrio
    · simp only [call, hp, ↓reduceIte]
      refine ⟨_, hcall, .cons _ hlock (.cons (s.become t s.q (.oneBody p)) ?_ (.cons _ ?_ (.refl _)))⟩
      · simp [Sys.next, Sys.step, running, become_queueFree quiet, Pc.queueLock, hp]
      · simp [Sys.next, Sys.step, running]
    · simp only [call, hp, ↓reduceIte]
      refine ⟨_, (s.become t s.q (.oneQueue p)).fail .outOfRange, hcall, .cons _ hlock (.cons _ ?_ (.refl _)), rfl⟩
      simp [Sys.next, Sys.step, running, hp]
  | releaseQueues =>
    simp only [call]
    refine ⟨s.become t s.q .allLock, ?_, .cons (s.become t s.q .allBody) ?_ (.cons _ ?_ (.refl _))⟩
    · simp only [Sys.next, running, idle]
      rfl
    · simp [Sys.next, Sys.step, running, become_noPurgeLock quiet, Pc.exclusive, Pc.shared]
    · simp [Sys.next, Sys.step, running]

end Calls

/-! ### Between calls -/

/-- No job has a priority above `_max_prio`, in a list or about to be inserted. -/
structure Bounded (s : Sys Tid T) : Prop where
  lists : ∀ p, s.q.maxPrio < p → s.q.priorityQs p = []
  inserts : ∀ t job, s.pc t = .enqInsert job → job.priority ≤ s.q.maxPrio

omit [Fintype Tid] in
theorem Bounded.effect {s' : Sys Tid T} {l : Label Tid T} (h : Bounded s) (hand : HandOver s) (locks : Locks s)
    (he : Effect s l s') : Bounded s' ∧ s'.q.maxPrio = s.q.maxPrio := by
  -- A step to a point other than `enqInsert` that leaves the lists alone.
  have frame : ∀ {t q c}, q.maxPrio = s.q.maxPrio → q.priorityQs = s.q.priorityQs →
      (∀ job, c = .enqInsert job → job.priority ≤ s.q.maxPrio) →
      Bounded (s.become t q c) ∧ (s.become t q c).q.maxPrio = s.q.maxPrio := by
    intro t q c hmax hlists hc
    refine ⟨⟨fun p hp => ?_, fun u job hu => ?_⟩, hmax⟩
    · rw [become_q, hmax] at hp
      rw [become_q, hlists]
      exact h.lists p hp
    · rw [become_q, hmax]
      simp only [Sys.become, Function.update_apply] at hu
      split at hu
      · exact hc job hu
      · exact h.inserts u job hu
  have others : ∀ {t q c}, c.isIdle = true ∨ (∃ job iter, c = .enqMapLock job iter) ∨ (∃ p n, c = .deqMapLock p n) →
      ∀ u job, (s.become t q c).pc u = .enqInsert job → job.priority ≤ s.q.maxPrio := by
    intro t q c hc u job hu
    simp only [Sys.become, Function.update_apply] at hu
    split at hu
    · rcases hc with hc | ⟨_, _, hc⟩ | ⟨_, _, hc⟩ <;> simp [hu, Pc.isIdle] at hc
    · exact h.inserts u job hu
  cases he with
  | @call t op _ _ => exact frame rfl rfl fun job hc => by cases op <;> cases hc
  | move pc goes =>
    cases goes with
    | enqQueue hp _ => exact frame rfl rfl fun job hc => by cases hc; exact hp
    | _ => exact frame rfl rfl (by simp)
  | @insert t job pc =>
    have hp := h.inserts t job pc
    refine ⟨⟨fun p hmax => ?_, fun u job' hu => ?_⟩, by simp⟩
    · rw [become_q, insertNode_maxPrio] at hmax
      rw [become_q, insertNode_priorityQs, Function.update_of_ne (by rintro rfl; exact Nat.not_lt_of_le hp hmax)]
      exact h.lists p hmax
    · rw [become_q, insertNode_maxPrio]
      exact others (Or.inr (Or.inl ⟨_, _, rfl⟩)) u job' hu
  | entry pc => exact frame (by simp) (by simp) (by simp)
  | pop pc popped =>
    obtain ⟨rest, hlist, hlists, -, -, hmax, -⟩ := popNode_ok popped
    refine ⟨⟨fun p hp => ?_, fun u job' hu => ?_⟩, hmax⟩
    · rw [become_q, hmax] at hp
      rw [become_q, hlists, Function.update_of_ne]
      · exact h.lists p hp
      · rintro rfl
        rw [h.lists _ hp] at hlist
        cases hlist
    · rw [become_q, hmax]
      exact others (Or.inr (Or.inr ⟨_, _, rfl⟩)) u job' hu
  | take pc taken =>
    obtain ⟨-, -, -, -, -, -, -, -, -, hlists, -⟩ := takeEntry_ok taken
    exact frame (takeEntry_gates taken).maxPrio hlists (by simp)
  | purge pc purged =>
    have hmax := (purge_gates purged).maxPrio
    refine ⟨⟨fun p hp => ?_, fun u job' hu => ?_⟩, hmax⟩
    · rw [become_q, hmax] at hp
      rw [become_q, hand.purge_lists locks pc purged p, h.lists p hp]
      rfl
    · rw [become_q, hmax]
      exact others (Or.inl rfl) u job' hu
  | one pc => exact frame (by simp) (by simp) (by simp)
  | gate pc _ | flag pc _ | released pc _ _ | all pc => exact frame rfl rfl (by simp)
  | fail _ _ | callFail _ => exact ⟨⟨h.lists, h.inserts⟩, rfl⟩

variable {maxPriority : Priority} {xs : List (Sys Tid T × Label Tid T)}

theorem bounded_of_run (run : (system Tid T maxPriority).Run xs s) : Bounded s ∧ s.q.maxPrio = maxPriority := by
  induction run with
  | init => exact ⟨⟨fun _ _ => rfl, nofun⟩, rfl⟩
  | step run hn ih =>
    obtain ⟨hb, hmax⟩ := ih.1.effect (handOver_of_run run) (locks_of_run run) (next_effect hn)
    exact ⟨hb, hmax.trans ih.2⟩

/-- Between calls the queue is valid, as after sequential calls. -/
theorem valid_of_quiet (run : (system Tid T maxPriority).Run xs s) (quiet : s.Quiet) : s.q.Valid where
  inStep := (handOver_of_run run).inStep_of_quiet quiet
  bounded := (bounded_of_run run).1.lists

/-- Whatever the threads have done before, a call made when none is in progress is a step of the lists. -/
theorem refines_of_quiet (run : (system Tid T maxPriority).Run xs s) (quiet : s.Quiet) {op : Op T}
    (hop : op.InRange maxPriority) : Refines maxPriority s.q op := by
  have hmax := (bounded_of_run run).2
  rw [← hmax] at hop ⊢
  exact (valid_of_quiet run quiet).refines hop

end Dans.Threads
