import Dans.Lib.Ghost
import Dans.Theorems.Pops

/-! Unlocking a gate. A `Dequeue` unlocks a gate that it has locked itself; the other operations unlock it because
    the list is empty, and then the gate is locked only if it was locked when the list became empty and nobody
    has unlocked it since. -/

namespace Dans.Threads
open MultiQueue

variable {Tid T : Type}

/-- The step calls `_not_empty_mutexes[p].unlock()`. -/
inductive Unlocks (s : Sys Tid T) (p : Priority) : Label Tid T → Prop where
  | enqueue {t : Tid} {job : Job T} (pc : s.pc t = .enqInsert job) (prio : job.priority = p)
      (empty : s.q.priorityQs p = []) : Unlocks s p (.step t)
  | pop {t : Tid} {n n' : Node} {rest : List Node} (pc : s.pc t = .deqPop p)
      (left : s.q.priorityQs p = n :: n' :: rest) : Unlocks s p (.step t)
  | released {t : Tid} (pc : s.pc t = .deqTest p) (empty : s.q.priorityQs p = []) (released : s.q.released = true) :
      Unlocks s p (.step t)
  | one {t : Tid} (pc : s.pc t = .oneBody p) (empty : s.q.priorityQs p = []) : Unlocks s p (.step t)
  | all {t : Tid} (pc : s.pc t = .allBody) (range : p ≤ s.q.maxPrio) (empty : s.q.priorityQs p = []) :
      Unlocks s p (.step t)

/-- No `Dequeue` of the priority is between taking the gate and its pop, its return or its way back. -/
def Sys.Unheld (s : Sys Tid T) (p : Priority) : Prop := ∀ u, (s.pc u).holds ≠ some p

instance [Fintype Tid] (s : Sys Tid T) (p : Priority) : Decidable (s.Unheld p) :=
  inferInstanceAs (Decidable (∀ u, (s.pc u).holds ≠ some p))

/-- The gates that were left unlocked on an empty list and that no `Dequeue` has locked since: at first those that
    the constructor does not lock. -/
def loose₀ (maxPriority : Priority) : Priority → Bool := fun p => !decide (p < maxPriority)

/-- What a step does to these gates: a `Dequeue` locks one; a `Purge` that removes the last jobs of a list, the two
    release operations and a `Dequeue` of a released queue leave one unlocked on an empty list. -/
def loosen [Fintype Tid] (loose : Priority → Bool) (s : Sys Tid T) : Label Tid T → Priority → Bool
  | .call _ _ => loose
  | .step t =>
    match s.pc t with
    | .deqGate p => Function.update loose p false
    | .deqTest p => if (s.q.priorityQs p).isEmpty && s.q.released then Function.update loose p true else loose
    | .purgeBody id => fun p =>
      loose p || (!(s.q.priorityQs p).isEmpty && (s.q.priorityQs p).all (·.jobId == id) && decide (s.Unheld p))
    | .oneBody p => if (s.q.priorityQs p).isEmpty then Function.update loose p true else loose
    | .allBody => fun p => loose p || (decide (p ≤ s.q.maxPrio) && (s.q.priorityQs p).isEmpty)
    | _ => loose

/-- If the list is empty, the gate is neither loose nor held. -/
def Sys.Clear (s : Sys Tid T) (loose : Priority → Bool) (p : Priority) : Prop :=
  s.q.priorityQs p = [] → loose p = false ∧ s.Unheld p

instance [Fintype Tid] (s : Sys Tid T) (loose : Priority → Bool) (p : Priority) : Decidable (s.Clear loose p) :=
  inferInstanceAs (Decidable (s.q.priorityQs p = [] → loose p = false ∧ s.Unheld p))

/-- A gate is unlocked on account of an empty list only while no `Dequeue` is past it, and only if one has locked it
    since it was last left unlocked on an empty list. -/
def unlocksClear [Fintype Tid] (loose : Priority → Bool) (s : Sys Tid T) : Label Tid T → Bool
  | .call _ _ => true
  | .step t =>
    match s.pc t with
    | .enqInsert job => decide (s.Clear loose job.priority)
    | .oneBody p => decide (s.Clear loose p)
    | .allBody => decide (∀ p ≤ s.q.maxPrio, s.Clear loose p)
    | _ => true

/-- Whoever is past a gate is alone there and has it locked, and an unlocked gate of an empty list is a loose one. -/
structure Kept (loose : Priority → Bool) (s : Sys Tid T) : Prop where
  shut : ∀ p t, (s.pc t).holds = some p → s.q.notEmpty p = false
  one : ∀ p, Exclusion.One (fun c : Pc T => c.holds = some p) s.pc
  loose : ∀ p, s.q.notEmpty p = true → s.q.priorityQs p = [] → loose p = true

theorem Goes.loosen [Fintype Tid] {s : Sys Tid T} {c c' : Pc T} (h : Goes s c c') {loose : Priority → Bool} {t : Tid}
    (pc : s.pc t = c) : loosen loose s (.step t) = loose := by
  cases h <;> simp_all [Threads.loosen]

variable {s s' : Sys Tid T} {t : Tid} {l : Label Tid T} {q : MultiQueue T} {c : Pc T} {loose loose' : Priority → Bool}

namespace Kept

theorem unheld (h : Kept loose s) {p : Priority} (opened : s.q.notEmpty p = true) : s.Unheld p := fun u hu => by
  rw [h.shut p u hu] at opened
  cases opened

theorem closed (h : Kept loose s) {p : Priority} (empty : s.q.priorityQs p = []) (hloose : loose p = false) :
    s.q.notEmpty p = false := by
  refine Bool.eq_false_of_not_eq_true fun opened => ?_
  rw [h.loose p opened empty] at hloose
  cases hloose

theorem others (h : Kept loose s) {p : Priority} (ht : (s.pc t).holds = some p) (u : Tid) (hut : u ≠ t) :
    (s.pc u).holds ≠ some p := fun hu => hut (h.one p u t hu ht)

/-- What is unlocked is locked. -/
theorem locked [Fintype Tid] (h : Kept loose s) (clear : unlocksClear loose s l = true) {p : Priority} (hu : Unlocks s p l) :
    s.q.notEmpty p = false := by
  cases hu with
  | enqueue pc prio empty =>
    simp only [unlocksClear, pc, prio, decide_eq_true_eq] at clear
    exact h.closed empty (clear empty).1
  | one pc empty =>
    simp only [unlocksClear, pc, decide_eq_true_eq] at clear
    exact h.closed empty (clear empty).1
  | all pc range empty =>
    simp only [unlocksClear, pc, decide_eq_true_eq] at clear
    exact h.closed empty (clear p range empty).1
  | @pop t n n' rest pc left => exact h.shut p t (by simp [pc, Pc.holds])
  | @released t pc empty released => exact h.shut p t (by simp [pc, Pc.holds])

variable [DecidableEq Tid]

/-- A step opens a gate only where nobody else holds it, and holds only what it held or what nobody held. -/
theorem become (h : Kept loose s) (hself : ∀ p, q.notEmpty p = true → c.holds ≠ some p)
    (hopen : ∀ p, q.notEmpty p = true → s.q.notEmpty p = true ∨ ∀ u, u ≠ t → (s.pc u).holds ≠ some p)
    (hhold : ∀ p, c.holds = some p → (s.pc t).holds = some p ∨ s.Unheld p)
    (hloose : ∀ p, q.notEmpty p = true → q.priorityQs p = [] → loose' p = true) : Kept loose' (s.become t q c) where
  shut p u hu := by
    refine Bool.eq_false_of_not_eq_true fun opened => ?_
    simp only [Sys.become, Function.update_apply] at hu
    split at hu
    · exact hself p opened hu
    · rcases hopen p opened with hbefore | hothers
      · exact h.unheld hbefore u hu
      · exact hothers u ‹_› hu
  one p := (h.one p).update (hhold p)
  loose := hloose

/-- Steps that leave gates and lists alone. -/
theorem frame (h : Kept loose s) (hgates : q.notEmpty = s.q.notEmpty) (hlists : q.priorityQs = s.q.priorityQs)
    (hhold : ∀ p, c.holds = some p → (s.pc t).holds = some p) : Kept loose (s.become t q c) := by
  refine h.become (fun p opened hc => ?_) (fun p opened => ?_) (fun p hc => Or.inl (hhold p hc)) fun p opened empty => ?_
  · rw [hgates] at opened
    exact h.unheld opened t (hhold p hc)
  · exact Or.inl (hgates ▸ opened)
  · exact h.loose p (hgates ▸ opened) (hlists ▸ empty)

/-- The gate of one priority is opened, by its holder or while nobody holds it. -/
theorem opens (h : Kept loose s) {p : Priority} (hgates : q.notEmpty = Function.update s.q.notEmpty p true)
    (hothers : ∀ u, u ≠ t → (s.pc u).holds ≠ some p) (hc : c.holds = none)
    (hlists : ∀ p', p' ≠ p → q.priorityQs p' = s.q.priorityQs p') (hloose : ∀ p', p' ≠ p → loose' p' = loose p')
    (hp : q.priorityQs p = [] → loose' p = true) : Kept loose' (s.become t q c) := by
  refine h.become (fun p' _ hc' => ?_) (fun p' opened => ?_) (fun p' hc' => ?_) fun p' opened empty => ?_
  · rw [hc] at hc'
    cases hc'
  · rcases eq_or_ne p' p with rfl | hne
    · exact Or.inr hothers
    · rw [hgates, Function.update_of_ne hne] at opened
      exact Or.inl opened
  · rw [hc] at hc'
    cases hc'
  · rcases eq_or_ne p' p with rfl | hne
    · exact hp empty
    · rw [hgates, Function.update_of_ne hne] at opened
      rw [hloose p' hne]
      exact h.loose p' opened (hlists p' hne ▸ empty)

theorem gate (h : Kept loose s) {p : Priority} (opened : s.q.notEmpty p = true) :
    Kept (Function.update loose p false) (s.become t (s.q.closeGate p) (.deqFlag p)) := by
  have hne : ∀ p', (s.q.closeGate p).notEmpty p' = true → p' ≠ p ∧ s.q.notEmpty p' = true := by
    intro p' hopen
    simp only [closeGate, Function.update_apply] at hopen
    split at hopen
    · cases hopen
    · exact ⟨‹_›, hopen⟩
  refine h.become (fun p' hopen hc => ?_) (fun p' hopen => ?_) (fun p' hc => ?_) fun p' hopen empty => ?_
  · exact (hne p' hopen).1 (Option.some.inj hc).symm
  · exact Or.inl (hne p' hopen).2
  · obtain rfl := Option.some.inj hc
    exact Or.inr (h.unheld opened)
  · rw [Function.update_of_ne (hne p' hopen).1]
    exact h.loose p' (hne p' hopen).2 empty

theorem insert (h : Kept loose s) {job : Job T} (clear : s.Clear loose job.priority) :
    Kept loose (s.become t (s.q.insertNode job) (.enqMapLock job s.q.nextAddr)) := by
  have hnil : (s.q.insertNode job).priorityQs job.priority ≠ [] := by simp [insertNode_priorityQs]
  have hlists : ∀ p, p ≠ job.priority → (s.q.insertNode job).priorityQs p = s.q.priorityQs p := fun p hp => by
    rw [insertNode_priorityQs, Function.update_of_ne hp]
  by_cases hempty : s.q.priorityQs job.priority = []
  · refine h.opens (p := job.priority) ?_ (fun u _ => (clear hempty).2 u) rfl hlists (fun _ _ => rfl)
      fun hq => absurd hq hnil
    rw [insertNode_notEmpty, if_pos hempty]
  · have hgates : (s.q.insertNode job).notEmpty = s.q.notEmpty := by rw [insertNode_notEmpty, if_neg hempty]
    refine h.become (fun _ _ hc => by cases hc) (fun p opened => Or.inl (hgates ▸ opened)) (fun _ hc => by cases hc) ?_
    intro p opened hq
    rcases eq_or_ne p job.priority with rfl | hp
    · exact absurd hq hnil
    · exact h.loose p (hgates ▸ opened) (hlists p hp ▸ hq)

theorem pop (h : Kept loose s) {p : Priority} {n : Node} (pc : s.pc t = .deqPop p)
    (popped : s.q.popNode p = .ok (n, q)) : Kept loose (s.become t q (.deqMapLock p n)) := by
  obtain ⟨rest, -, hlists, -, -, -, -, -, hgate⟩ := popNode_ok popped
  have hself : (s.pc t).holds = some p := by simp [pc, Pc.holds]
  have hothers : ∀ p', p' ≠ p → q.priorityQs p' = s.q.priorityQs p' := fun p' hp => by rw [hlists, Function.update_of_ne hp]
  rcases eq_or_ne rest [] with hrest | hrest
  · rw [if_pos hrest] at hgate
    refine h.become (fun _ _ hc => by cases hc) (fun p' opened => Or.inl (hgate ▸ opened)) (fun _ hc => by cases hc) ?_
    intro p' opened empty
    have hp : p' ≠ p := by
      rintro rfl
      exact h.unheld (hgate ▸ opened) t hself
    exact h.loose p' (hgate ▸ opened) (hothers p' hp ▸ empty)
  · rw [if_neg hrest] at hgate
    refine h.opens hgate (h.others hself) rfl hothers (fun _ _ => rfl) fun hq => ?_
    exact absurd (by simpa [hlists] using hq) hrest

/-- A list that is emptied by `Purge` while its gate is open becomes loose. -/
theorem purge [Fintype Tid] (h : Kept loose s) (hand : HandOver s) (locks : Locks s) {id : JobId} {count : Nat}
    (pc : s.pc t = .purgeBody id) (purged : s.q.purge id = .ok (count, q)) :
    Kept (loosen loose s (.step t)) (s.become t q (.idle (some (.purged count)))) := by
  have hgates := (purge_gates purged).notEmpty
  refine h.become (fun _ _ hc => by cases hc) (fun p opened => Or.inl (hgates ▸ opened)) (fun _ hc => by cases hc) ?_
  intro p opened empty
  rw [hgates] at opened
  rw [hand.purge_lists locks pc purged p, List.filter_eq_nil_iff] at empty
  simp only [loosen, pc, Bool.or_eq_true]
  by_cases hbefore : s.q.priorityQs p = []
  · exact Or.inl (h.loose p opened hbefore)
  · refine Or.inr ?_
    simp only [Bool.and_eq_true, decide_eq_true_eq, List.all_eq_true]
    exact ⟨⟨by simpa using hbefore, fun n hn => by simpa using empty n hn⟩, h.unheld opened⟩

theorem releaseOne (h : Kept loose s) {p : Priority} (clear : s.Clear loose p) :
    Kept (if (s.q.priorityQs p).isEmpty then Function.update loose p true else loose)
      (s.become t (s.q.releaseOneAt p) (.idle (some .void))) := by
  by_cases hempty : s.q.priorityQs p = []
  · rw [if_pos (by simp [hempty])]
    refine h.opens (p := p) ?_ (fun u _ => (clear hempty).2 u) rfl (fun _ _ => by simp) (fun p' hp => ?_) fun _ => ?_
    · rw [releaseOneAt_notEmpty, if_pos hempty]
    · rw [Function.update_of_ne hp]
    · rw [Function.update_self]
  · rw [if_neg (by simpa using hempty)]
    refine h.frame ?_ (by simp) (fun _ hc => by cases hc)
    rw [releaseOneAt_notEmpty, if_neg hempty]

theorem releaseAll (h : Kept loose s) (clear : ∀ p ≤ s.q.maxPrio, s.Clear loose p) :
    Kept (fun p => loose p || (decide (p ≤ s.q.maxPrio) && (s.q.priorityQs p).isEmpty))
      (s.become t s.q.releaseQueues (.idle (some .void))) := by
  refine h.become (fun _ _ hc => by cases hc) (fun p opened => ?_) (fun _ hc => by cases hc) fun p opened empty => ?_
  · simp only [releaseQueues] at opened
    split at opened
    · next hp => exact Or.inr fun u _ => (clear p hp.1 hp.2).2 u
    · exact Or.inl opened
  · simp only [releaseQueues] at opened empty
    split at opened
    · next hp => simp [hp.1, hp.2]
    · simp [h.loose p opened empty]

theorem effect [Fintype Tid] (h : Kept loose s) (hand : HandOver s) (locks : Locks s) (clear : unlocksClear loose s l = true)
    (he : Effect s l s') : Kept (loosen loose s l) s' := by
  cases he with
  | @call t op idle _ =>
    refine h.frame (q := s.q) rfl rfl fun p hc => ?_
    cases op <;> cases hc
  | @move t c c' pc goes =>
    rw [goes.loosen pc]
    exact h.frame (q := s.q) rfl rfl fun p hc => pc ▸ goes.holds_before hc
  | @insert t job pc =>
    simp only [unlocksClear, pc, decide_eq_true_eq] at clear
    simpa only [loosen, pc] using h.insert clear
  | @entry t job iter pc =>
    simpa only [loosen, pc] using h.frame (insertEntry_gates s.q job iter).notEmpty (by simp) (fun _ hc => by cases hc)
  | gate pc opened => simpa only [loosen, pc] using h.gate opened
  | flag pc flagged =>
    simp only [loosen, pc]
    exact h.frame rfl rfl fun _ hc => by cases hc
  | @released t p pc empty released =>
    have hself : (s.pc t).holds = some p := by simp [pc, Pc.holds]
    simp only [loosen, pc, empty, released, List.isEmpty_nil, Bool.and_self, if_true]
    refine h.opens (p := p) rfl (h.others hself) rfl (fun _ _ => rfl) (fun p' hp => ?_) fun _ => ?_
    · rw [Function.update_of_ne hp]
    · rw [Function.update_self]
  | pop pc popped => simpa only [loosen, pc] using h.pop pc popped
  | take pc taken =>
    obtain ⟨-, -, -, -, -, -, -, -, -, hlists, -⟩ := takeEntry_ok taken
    simpa only [loosen, pc] using h.frame (takeEntry_gates taken).notEmpty hlists (fun _ hc => by cases hc)
  | purge pc purged => exact h.purge hand locks pc purged
  | one pc =>
    simp only [unlocksClear, pc, decide_eq_true_eq] at clear
    simpa only [loosen, pc] using h.releaseOne clear
  | all pc =>
    simp only [unlocksClear, pc, decide_eq_true_eq] at clear
    simpa only [loosen, pc] using h.releaseAll clear
  | fail pc faults =>
    refine ⟨h.shut, h.one, fun p opened empty => ?_⟩
    cases faults <;> simp [loosen, pc, h.loose p opened empty]
  | callFail _ => exact ⟨h.shut, h.one, h.loose⟩

end Kept

variable [Fintype Tid] [DecidableEq Tid]

theorem kept_of_run {maxPriority : Priority} {xs : List (Sys Tid T × Label Tid T)}
    (run : (system Tid T maxPriority).Run xs s)
    (hok : Lts.MeetsAfter loosen (loose₀ maxPriority) (unlocksClear · · · = true) xs) :
    Kept (Lts.history loosen (loose₀ maxPriority) xs) s := by
  refine run.invariant_after (P := Kept) hok ?_ fun run h clear hn =>
    h.effect (handOver_of_run run) (locks_of_run run) clear (next_effect hn)
  exact ⟨fun _ _ hc => (by cases hc), fun _ _ _ hc => (by cases hc), fun _ opened _ => opened⟩

/-- No gate is unlocked while it is unlocked, in any run that unlocks the gates of empty lists only where they are
    neither held by a `Dequeue` nor loose. -/
theorem unlocks_locked {maxPriority : Priority} {xs : List (Sys Tid T × Label Tid T)}
    (run : (system Tid T maxPriority).Run xs s)
    (hok : Lts.MeetsAfter loosen (loose₀ maxPriority) (unlocksClear · · · = true) xs) :
    ∀ x ∈ xs, ∀ p, Unlocks x.1 p x.2 → x.1.q.notEmpty p = false := by
  intro x hx p hu
  obtain ⟨ys, zs, rfl⟩ := List.mem_iff_append.mp hx
  obtain ⟨run, -⟩ := run.split (s := x.1) (l := x.2) rfl
  have hys : Lts.MeetsAfter loosen (loose₀ maxPriority) (unlocksClear · · · = true) ys := hok.of_append
  exact (kept_of_run run hys).locked (hok ys x.1 x.2 zs rfl) hu

/-- A `Dequeue` of a list of two jobs comes to its pop and unlocks the gate again. -/
theorem unlocks_locked_pop : ∃ xs s, (system (Fin 2) Nat 1).Run xs s ∧
    ∃ x ∈ xs, Unlocks x.1 0 x.2 ∧ x.1.q.notEmpty 0 = false := by
  obtain ⟨ys, x, run, -, hs⟩ := Lts.run_of_exec_any
    ((system (Fin 2) Nat 1).guarded loosen (loose₀ 1) (unlocksClear · · · = true))
    (.call 1 (.enqueue ⟨7, 0, 0, 5⟩) :: List.replicate 5 (.step 1) ++
      .call 1 (.enqueue ⟨8, 0, 0, 6⟩) :: List.replicate 5 (.step 1) ++ .call 0 (.dequeue 0) :: List.replicate 5 (.step 0))
    (fun x => decide (x.1.pc 0 = .deqPop 0 ∧ x.1.q.priorityQs 0 = [⟨0, 7⟩, ⟨1, 8⟩] ∧ x.1.fault = none)) (by decide)
  obtain ⟨hpc, hlist, hfault⟩ := of_decide_eq_true hs
  obtain ⟨xs, run, -, hok, -⟩ := run.of_guarded
  obtain ⟨s', hn⟩ : ∃ s', (system (Fin 2) Nat 1).next x.1 (.step 0) = some s' := by
    simp [system, Sys.next, Sys.step, hpc, hfault, popNode, hlist]
  have hok := hok.snoc (s := x.1) (l := .step 0) (by simp [unlocksClear, hpc])
  have hmem : (x.1, .step 0) ∈ xs ++ [(x.1, Label.step 0)] := by simp
  have hu : Unlocks x.1 0 (.step 0) := .pop hpc hlist
  exact ⟨_, s', run.step hn, _, hmem, hu, unlocks_locked (run.step hn) hok _ hmem 0 hu⟩

/-- The constructor leaves the gate of the last priority unlocked, and the first `Enqueue` unlocks it. -/
theorem unlocks_open_gate : ∃ xs s, (system (Fin 1) Nat 0).Run xs s ∧
    xs.map Prod.snd = [.call 0 (.enqueue ⟨7, 0, 0, 5⟩), .step 0, .step 0] ∧
    Unlocks s 0 (.step 0) ∧ (s.next (.step 0)).isSome ∧ s.q.notEmpty 0 = true := by
  obtain ⟨xs, s, run, hls, hs⟩ := Lts.run_of_exec_any (system (Fin 1) Nat 0)
    [.call 0 (.enqueue ⟨7, 0, 0, 5⟩), .step 0, .step 0]
    (fun s => decide (s.pc 0 = .enqInsert ⟨7, 0, 0, 5⟩ ∧ s.q.priorityQs 0 = [] ∧ (s.next (.step 0)).isSome ∧
      s.q.notEmpty 0 = true)) (by decide)
  obtain ⟨hpc, hempty, hn, hopen⟩ := of_decide_eq_true hs
  exact ⟨xs, s, run, hls, .enqueue hpc rfl hempty, hn, hopen⟩

end Dans.Threads
