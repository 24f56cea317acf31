import Dans.Theorems.Gates

/-! How many `Dequeue`s pass a gate. A gate of a list that holds jobs lets one `Dequeue` through, and that
    one opens it again when it leaves jobs behind; but `Enqueue` opens the gate of an empty list also when
    a `Dequeue` has just passed it, and then two are past the test for one job. -/

namespace Dans.Threads
open MultiQueue

variable {Tid T : Type}

/-- The priority at which the thread has found the list not empty and goes on to pop. -/
def Pc.past : Pc T → Option Priority
  | deqQueue p | deqPop p => some p
  | _ => none

theorem Pc.holds_of_past {c : Pc T} {p : Priority} (h : c.past = some p) : c.holds = some p := by
  cases c <;> simp_all [Pc.past, Pc.holds]

theorem Pc.shared_of_past {c : Pc T} {p : Priority} (h : c.past = some p) : c.shared = true := by
  cases c <;> simp_all [Pc.past, Pc.shared]

theorem Goes.holds_before {s : Sys Tid T} {c c' : Pc T} (h : Goes s c c') {p : Priority} (hc : c'.holds = some p) :
    c.holds = some p := by
  cases h <;> simp_all [Pc.holds]

theorem Goes.past {s : Sys Tid T} {c c' : Pc T} (h : Goes s c c') {p : Priority} (hc : c'.past = some p) :
    s.q.priorityQs p ≠ [] ∨ c.past = some p := by
  cases h <;> simp_all [Pc.past]

/-- At most one `Dequeue` has passed the gate of a list that holds jobs, with the gate closed behind it,
    and whoever is past the test has a job to pop. -/
structure Admits (s : Sys Tid T) : Prop where
  shut : ∀ p t, s.q.priorityQs p ≠ [] → (s.pc t).holds = some p → s.q.notEmpty p = false
  one : ∀ p, s.q.priorityQs p ≠ [] → Exclusion.One (fun c : Pc T => c.holds = some p) s.pc
  past : ∀ t p, (s.pc t).past = some p → s.q.priorityQs p ≠ []

variable [DecidableEq Tid] {s s' : Sys Tid T} {t : Tid} {l : Label Tid T} {q : MultiQueue T} {c : Pc T}

namespace Admits

/-- Steps that neither fill a list nor open the gate of one that holds jobs. -/
theorem become (h : Admits s) (hlist : ∀ p, q.priorityQs p ≠ [] → s.q.priorityQs p ≠ [])
    (hgate : ∀ p, q.priorityQs p ≠ [] → q.notEmpty p = true → s.q.notEmpty p = true)
    (hhold : ∀ p, c.holds = some p → (s.pc t).holds = some p) (hpast : ∀ p, c.past = some p → q.priorityQs p ≠ [])
    (hothers : ∀ u p, u ≠ t → (s.pc u).past = some p → q.priorityQs p ≠ []) : Admits (s.become t q c) where
  shut p u hne hu := by
    have hold : ∃ v, (s.pc v).holds = some p := by
      simp only [Sys.become, Function.update_apply] at hu
      split at hu
      · exact ⟨t, hhold p hu⟩
      · exact ⟨u, hu⟩
    obtain ⟨v, hv⟩ := hold
    have hclosed := h.shut p v (hlist p hne) hv
    refine Bool.eq_false_of_not_eq_true fun hopen => ?_
    rw [hgate p hne hopen] at hclosed
    cases hclosed
  one p hne := (h.one p (hlist p hne)).update fun hc => Or.inl (hhold p hc)
  past u p hu := by
    simp only [Sys.become, Function.update_apply] at hu
    split at hu
    · exact hpast p hu
    · exact hothers u p ‹_› hu

theorem frame (h : Admits s) (hlists : q.priorityQs = s.q.priorityQs)
    (hgate : ∀ p, s.q.priorityQs p ≠ [] → q.notEmpty p = true → s.q.notEmpty p = true)
    (hhold : ∀ p, c.holds = some p → (s.pc t).holds = some p)
    (hpast : ∀ p, c.past = some p → s.q.priorityQs p ≠ []) : Admits (s.become t q c) := by
  refine h.become ?_ ?_ hhold ?_ ?_
  · simp [hlists]
  · simpa [hlists] using hgate
  · simpa [hlists] using hpast
  · intro u p _ hu
    rw [hlists]
    exact h.past u p hu

theorem frame_of_none (h : Admits s) (hlists : q.priorityQs = s.q.priorityQs)
    (hgate : ∀ p, s.q.priorityQs p ≠ [] → q.notEmpty p = true → s.q.notEmpty p = true) (hc : c.holds = none) :
    Admits (s.become t q c) := by
  refine h.frame hlists hgate (by simp [hc]) fun p hp => ?_
  rw [Pc.holds_of_past hp] at hc
  cases hc

theorem insert (h : Admits s) {job : Job T}
    (hok : s.q.priorityQs job.priority ≠ [] ∨ ∀ u, (s.pc u).holds ≠ some job.priority) :
    Admits (s.become t (s.q.insertNode job) (.enqMapLock job s.q.nextAddr)) := by
  -- Holders of a gate are holders of the gate of a list that held jobs before.
  have hbefore : ∀ p u, (s.pc u).holds = some p → (s.q.insertNode job).priorityQs p ≠ [] → s.q.priorityQs p ≠ [] := by
    intro p u hu hne hempty
    simp only [insertNode_priorityQs, Function.update_apply] at hne
    split at hne
    · next hp =>
      subst hp
      exact hok.elim (fun hok => hok hempty) fun hok => hok u hu
    · exact hne hempty
  refine ⟨fun p u hne hu => ?_, fun p hne u v hu hv => ?_, fun u p hu => ?_⟩
  · have hu := (become_pc_other (f := Pc.holds) rfl hu).2
    have hne := hbefore p u hu hne
    rw [become_q, insertNode_notEmpty]
    split
    · next hempty =>
      rw [Function.update_of_ne]
      · exact h.shut p u hne hu
      · rintro rfl
        exact hne hempty
    · exact h.shut p u hne hu
  · have hu := (become_pc_other (f := Pc.holds) rfl hu).2
    have hv := (become_pc_other (f := Pc.holds) rfl hv).2
    exact h.one p (hbefore p u hu hne) u v hu hv
  · have hne := h.past u p (become_pc_other (f := Pc.past) rfl hu).2
    simp only [become_q, insertNode_priorityQs, Function.update_apply]
    split
    · simp
    · exact hne

theorem gate (h : Admits s) {p : Priority} (opened : s.q.notEmpty p = true) :
    Admits (s.become t (s.q.closeGate p) (.deqFlag p)) := by
  have hnone : s.q.priorityQs p ≠ [] → ∀ u, (s.pc u).holds ≠ some p := fun hne u hu => by
    simp [h.shut p u hne hu] at opened
  refine ⟨fun p' u hne hu => ?_, fun p' hne => ?_, fun u p' hu => ?_⟩
  · by_cases hp : p' = p
    · simp [closeGate, hp]
    · simp only [Sys.become, closeGate, Function.update_of_ne hp] at hu hne ⊢
      simp only [Function.update_apply] at hu
      split at hu
      · exact absurd (Option.some.inj hu).symm hp
      · exact h.shut p' u hne hu
  · refine (h.one p' hne).update fun hc => Or.inr fun u hu => ?_
    have hp : p = p' := Option.some.inj hc
    subst hp
    exact hnone hne u hu
  · exact h.past u p' (become_pc_other (f := Pc.past) rfl hu).2

theorem pop (h : Admits s) {p : Priority} {n : Node} (pc : s.pc t = .deqPop p)
    (popped : s.q.popNode p = .ok (n, q)) : Admits (s.become t q (.deqMapLock p n)) := by
  obtain ⟨rest, hlist, hlists, -, -, -, -, -, hgate⟩ := popNode_ok popped
  have hne : s.q.priorityQs p ≠ [] := by simp [hlist]
  have hself : (s.pc t).holds = some p := by simp [pc, Pc.holds]
  have hnone : ∀ u, u ≠ t → (s.pc u).holds ≠ some p := fun u hut hu => hut (h.one p hne u t hu hself)
  refine ⟨fun p' u hne' hu => ?_, fun p' hne' u v hu hv => ?_, fun u p' hu => ?_⟩
  · obtain ⟨hut, hu⟩ := become_pc_other (f := Pc.holds) rfl hu
    have hp : p' ≠ p := fun hp => hnone u hut (hp ▸ hu)
    simp only [become_q, hlists, Function.update_of_ne hp] at hne'
    rw [become_q, hgate]
    split
    · exact h.shut p' u hne' hu
    · rw [Function.update_of_ne hp]
      exact h.shut p' u hne' hu
  · obtain ⟨hut, hu⟩ := become_pc_other (f := Pc.holds) rfl hu
    obtain ⟨hvt, hv⟩ := become_pc_other (f := Pc.holds) rfl hv
    have hp : p' ≠ p := fun hp => hnone u hut (hp ▸ hu)
    simp only [become_q, hlists, Function.update_of_ne hp] at hne'
    exact h.one p' hne' u v hu hv
  · obtain ⟨hut, hu⟩ := become_pc_other (f := Pc.past) rfl hu
    have hp : p' ≠ p := fun hp => hnone u hut (hp ▸ Pc.holds_of_past hu)
    rw [become_q, hlists, Function.update_of_ne hp]
    exact h.past u p' hu

theorem effect (h : Admits s) (hand : HandOver s) (locks : Locks s)
    (hok : ∀ t job, l = .step t → s.pc t = .enqInsert job →
      s.q.priorityQs job.priority ≠ [] ∨ ∀ u, (s.pc u).holds ≠ some job.priority) (he : Effect s l s') : Admits s' := by
  cases he with
  | @call t op _ _ => exact h.frame_of_none (q := s.q) rfl (fun _ _ => id) (by cases op <;> rfl)
  | move pc goes =>
    refine h.frame (q := s.q) rfl (fun _ _ => id) (fun p hc => ?_) fun p hc => ?_
    · rw [pc]
      exact goes.holds_before hc
    · rcases goes.past hc with hne | hpast
      · exact hne
      · exact h.past _ p (pc ▸ hpast)
  | insert pc => exact h.insert (hok _ _ rfl pc)
  | entry pc => exact h.frame_of_none (by simp) (by simp [(insertEntry_gates _ _ _).notEmpty]) rfl
  | gate pc opened => exact h.gate opened
  | flag pc _ => exact h.frame_of_none rfl (fun _ _ => id) rfl
  | @released t p' pc empty _ =>
    refine h.frame_of_none rfl (fun p hne ho => ?_) rfl
    have hp : p ≠ p' := fun hp => hne (hp ▸ empty)
    simpa [openGate, Function.update_of_ne hp] using ho
  | pop pc popped => exact h.pop pc popped
  | take pc taken =>
    obtain ⟨-, -, -, -, -, -, -, -, -, hlists, -⟩ := takeEntry_ok taken
    exact h.frame_of_none hlists (by simp [(takeEntry_gates taken).notEmpty]) rfl
  | @purge t id count q pc purged =>
    refine h.become (fun p hne hempty => ?_) (by simp [(purge_gates purged).notEmpty]) (by simp [Pc.holds])
      (by simp [Pc.past]) fun u p _ hu => ?_
    · simp [hand.purge_lists locks pc purged p, hempty] at hne
    · -- Nobody is past the test while `Purge` holds the purge lock.
      have hex : (s.pc t).exclusive = true := by simp [pc, Pc.exclusive]
      simpa [locks.shared_of_exclusive hex u] using Pc.shared_of_past hu
  | @one t p' pc =>
    refine h.frame_of_none (by simp) (fun p hne ho => ?_) rfl
    rw [releaseOneAt_notEmpty] at ho
    split at ho
    · next hempty =>
      have hp : p ≠ p' := fun hp => hne (hp ▸ hempty)
      rwa [Function.update_of_ne hp] at ho
    · exact ho
  | all pc => exact h.frame_of_none rfl (fun p hne ho => by simpa [releaseQueues, hne] using ho) rfl
  | fail _ _ | callFail _ => exact ⟨h.shut, h.one, h.past⟩

end Admits

variable [Fintype Tid] {maxPriority : Priority} {xs : List (Sys Tid T × Label Tid T)} {p : Priority}

/-- An `Enqueue` puts a job into an empty list only while no `Dequeue` of that priority is between taking
    the gate and its pop, its return or its way back to the gate. -/
def opensClear (s : Sys Tid T) : Label Tid T → Bool
  | .call _ _ => true
  | .step t =>
    match s.pc t with
    | .enqInsert job => !(s.q.priorityQs job.priority).isEmpty || decide (∀ u, (s.pc u).holds ≠ some job.priority)
    | _ => true

/-- A `Dequeue` never pops an empty list in a run in which no `Enqueue` opens a gate that a `Dequeue` has
    just passed. -/
theorem pop_finds_job (run : (system Tid T maxPriority).Run xs s)
    (hok : Lts.Meets (fun s l => opensClear s l = true) xs) (pc : s.pc t = .deqPop p) : s.q.priorityQs p ≠ [] := by
  have hadmits : Admits s := by
    refine run.invariant (P := Admits) hok ?_ ?_
    · exact ⟨fun _ _ hne => absurd rfl hne, fun _ hne => absurd rfl hne, nofun⟩
    · intro xs s l s' run h hok hn
      refine h.effect (handOver_of_run run) (locks_of_run run) ?_ (next_effect hn)
      rintro t job rfl pc
      simpa [opensClear, pc] using hok
  exact hadmits.past t p (by simp [pc, Pc.past])

/-- Two jobs and two `Dequeue`s, the second of which comes to its pop while the first has its job. -/
theorem pop_finds_job_two : ∃ xs s, (system (Fin 3) Nat 1).Run xs s ∧ s.pc 1 = .deqPop 1 ∧ s.q.priorityQs 1 ≠ [] := by
  obtain ⟨xs, s, run, -, hs⟩ := Lts.run_of_exec_any
    ((system (Fin 3) Nat 1).restrict fun s l => opensClear s l = true)
    (.call 2 (.enqueue ⟨7, 1, 0, 5⟩) :: List.replicate 5 (.step 2) ++
      .call 2 (.enqueue ⟨8, 1, 0, 6⟩) :: List.replicate 5 (.step 2) ++
      .call 0 (.dequeue 1) :: List.replicate 8 (.step 0) ++ .call 1 (.dequeue 1) :: List.replicate 5 (.step 1))
    (fun s => decide (s.pc 1 = .deqPop 1)) (by decide)
  obtain ⟨run, hok⟩ := run.of_restrict
  have hpc := of_decide_eq_true hs
  exact ⟨xs, s, run, hpc, pop_finds_job run hok hpc⟩

/-- Two `Dequeue`s of the last priority, whose gate is open from the start, and one `Enqueue` between
    them: both get past the test for one job, and the second comes to its pop when the list is empty. -/
theorem pop_of_empty_list : ∃ xs s, (system (Fin 3) Nat 0).Run xs s ∧
    xs.map Prod.snd = .call 0 (.dequeue 0) :: .step 0 :: .call 2 (.enqueue ⟨7, 0, 0, 5⟩) :: List.replicate 5 (.step 2) ++
      .call 1 (.dequeue 0) :: List.replicate 4 (.step 1) ++ List.replicate 7 (.step 0) ++ [.step 1] ∧
    s.pc 1 = .deqPop 0 ∧ s.q.priorityQs 0 = [] := by
  obtain ⟨xs, s, run, hls, hs⟩ := Lts.run_of_exec_any (system (Fin 3) Nat 0)
    (.call 0 (.dequeue 0) :: .step 0 :: .call 2 (.enqueue ⟨7, 0, 0, 5⟩) :: List.replicate 5 (.step 2) ++
      .call 1 (.dequeue 0) :: List.replicate 4 (.step 1) ++ List.replicate 7 (.step 0) ++ [.step 1])
    (fun s => decide (s.pc 1 = .deqPop 0 ∧ s.q.priorityQs 0 = [])) (by decide)
  exact ⟨xs, s, run, hls, of_decide_eq_true hs⟩

end Dans.Threads
