import Mathlib.Algebra.BigOperators.Group.Finset.Piecewise
import Mathlib.Data.List.Perm.Basic
import Dans.FifoSpec
import Dans.Theorems.Linked

/-! A `MultiQueue` refines its first-in first-out lists: after any calls on a fresh queue, a further call
    trips no `CHECK`, erases no stale iterator, and does to the lists of jobs what `Jobs.Step` says. -/

namespace Dans.MultiQueue

variable {T : Type} {q q' : MultiQueue T}

/-! ### Reading the lists of jobs -/

theorem jobAt_node (h : q.InStep) {e : Entry T} (he : q.Has e) : q.jobAt e.node = some e.job := by
  unfold jobAt Entry.node
  have := KeyedList.find?_key (h.iters_nodup e.job.jobId) he
  simp only [entries] at this
  simp [this]

theorem jobAt_of_mem (h : q.InStep) {p : Priority} {n : Node} (hn : n ∈ q.priorityQs p) :
    ∃ job, q.jobAt n = some job ∧ job.priority = p ∧ job.jobId = n.jobId := by
  obtain ⟨e, he, hp, rfl⟩ := h.entry_mem hn
  exact ⟨e.job, jobAt_node h he, hp, rfl⟩

theorem jobAt_kept (h : q.InStep) (h' : q'.InStep) {p : Priority} {n : Node} (hn : n ∈ q.priorityQs p)
    (hkeep : ∀ e, q.Has e → e.node = n → q'.Has e) : q'.jobAt n = q.jobAt n := by
  obtain ⟨e, he, -, rfl⟩ := h.entry_mem hn
  rw [jobAt_node h he, jobAt_node h' (hkeep e he rfl)]

theorem jobs_congr (hq : q'.priorityQs = q.priorityQs) (hm : q'.valueMapper = q.valueMapper) : q'.jobs = q.jobs := by
  funext p
  unfold jobs jobAt
  rw [hq, hm]

theorem countP_jobs (h : q.InStep) (p : Priority) (id : JobId) :
    (q.jobs p).countP (·.jobId == id) = (q.priorityQs p).countP (·.jobId == id) := by
  have : ∀ l : List Node, (∀ n ∈ l, ∃ job, q.jobAt n = some job ∧ job.jobId = n.jobId) →
      (l.filterMap q.jobAt).countP (·.jobId == id) = l.countP (·.jobId == id) := by
    intro l
    induction l with
    | nil => simp
    | cons n l ih =>
      intro hl
      obtain ⟨job, hjob, hid⟩ := hl n List.mem_cons_self
      rw [List.filterMap_cons_some hjob, List.countP_cons, List.countP_cons, ih fun m hm => hl m (List.mem_cons_of_mem _ hm),
        hid]
  refine this _ fun n hn => ?_
  obtain ⟨job, hjob, -, hid⟩ := jobAt_of_mem h hn
  exact ⟨job, hjob, hid⟩

theorem filterMap_filter_id (h : q.InStep) {p : Priority} {id : JobId} : ∀ {l : List Node},
    (∀ n ∈ l, n ∈ q.priorityQs p) → (l.filter fun n => n.jobId != id).filterMap q.jobAt =
      (l.filterMap q.jobAt).filter fun job => !(job.jobId == id)
  | [], _ => rfl
  | n :: l, hl => by
    have ih := @filterMap_filter_id h p id l fun m hm => hl m (List.mem_cons_of_mem n hm)
    obtain ⟨job, hjob, -, hid⟩ := jobAt_of_mem h (hl n List.mem_cons_self)
    rw [List.filterMap_cons_some hjob, List.filter_cons, List.filter_cons, hid]
    split
    · next hne => rw [List.filterMap_cons_some hjob, ih, if_pos (by simpa using hne)]
    · next heq => rw [ih, if_neg (by simpa using heq)]

/-! ### Counting what a purge removes -/

theorem countP_entries (h : q.InStep) (id : JobId) (p : Priority) :
    (q.entries id).countP (·.job.priority == p) = (q.priorityQs p).countP (·.jobId == id) := by
  rw [List.countP_eq_length_filter, List.countP_eq_length_filter,
    ← List.length_map (fun e : Entry T => e.iter), ← List.length_map (fun n : Node => n.addr)]
  apply List.Perm.length_eq
  rw [List.perm_ext_iff_of_nodup ((h.iters_nodup id).sublist (List.filter_sublist.map _))
    ((h.addrs_nodup p).sublist (List.filter_sublist.map _))]
  intro a
  simp only [List.mem_map, List.mem_filter, beq_iff_eq]
  constructor
  · rintro ⟨e, ⟨he, rfl⟩, rfl⟩
    exact ⟨e.node, ⟨h.node_mem (h.has_of_mem he), h.key id e he⟩, rfl⟩
  · rintro ⟨n, ⟨hn, rfl⟩, rfl⟩
    obtain ⟨e, he, hp, rfl⟩ := h.entry_mem hn
    exact ⟨e, ⟨he, hp⟩, rfl⟩

/-- A list is counted by the values that a bounded key takes on it. -/
theorem length_eq_sum_countP {α : Type} (f : α → Nat) (m : Nat) : ∀ l : List α, (∀ x ∈ l, f x ≤ m) →
    l.length = ∑ p ∈ Finset.range (m + 1), l.countP (fun x => f x == p)
  | [], _ => by simp
  | x :: l, hl => by
    have hx : f x < m + 1 := Nat.lt_succ_of_le (hl x List.mem_cons_self)
    have hone : ∑ p ∈ Finset.range (m + 1), (if f x = p then 1 else 0) = 1 := by simp [hx]
    simp only [List.countP_cons, beq_iff_eq, Finset.sum_add_distrib, hone, List.length_cons]
    rw [length_eq_sum_countP f m l fun y hy => hl y (List.mem_cons_of_mem _ hy)]

/-! ### The invariant of whole calls -/

/-- What holds between calls. -/
structure Valid (q : MultiQueue T) : Prop where
  inStep : q.InStep
  bounded : ∀ p, q.maxPrio < p → q.priorityQs p = []

theorem Valid.new {maxPriority : Priority} : Valid (MultiQueue.new maxPriority : MultiQueue T) where
  inStep := Linked.new
  bounded _ _ := rfl

theorem Valid.congr (h : q.Valid) (hq : q'.priorityQs = q.priorityQs) (hm : q'.valueMapper = q.valueMapper)
    (ha : q'.nextAddr = q.nextAddr) (hp : q'.maxPrio = q.maxPrio) : q'.Valid where
  inStep := h.inStep.congr hq hm ha
  bounded := by rw [hq, hp]; exact h.bounded

theorem Valid.countId (h : q.Valid) (id : JobId) : q.jobs.countId q.maxPrio id = (q.entries id).length := by
  have hbound : ∀ e ∈ q.entries id, e.job.priority ≤ q.maxPrio := fun e he => by
    by_contra hlt
    have hnode := h.inStep.node_mem (h.inStep.has_of_mem he)
    rw [h.bounded _ (Nat.lt_of_not_le hlt)] at hnode
    cases hnode
  rw [length_eq_sum_countP (fun e => e.job.priority) q.maxPrio _ hbound]
  unfold Jobs.countId
  refine Finset.sum_congr rfl fun p _ => ?_
  rw [countP_jobs h.inStep, countP_entries h.inStep]

/-! ### Each operation -/

theorem Valid.enqueue (h : q.Valid) {job : Job T} (hp : job.priority ≤ q.maxPrio) :
    ((q.insertNode job).insertEntry job q.nextAddr).Valid ∧
      ((q.insertNode job).insertEntry job q.nextAddr).jobs = q.jobs.push job.priority job := by
  have hin : ((q.insertNode job).insertEntry job q.nextAddr).InStep := by
    have hadd : (fun e => False ∨ e = (⟨job, q.nextAddr⟩ : Entry T)) ⟨job, q.nextAddr⟩ := Or.inr rfl
    have hlink := (h.inStep.insertNode job).insertEntry hadd fun e he hne => absurd (he.resolve_left not_false) hne
    have hnone : (fun e => (False ∨ e = (⟨job, q.nextAddr⟩ : Entry T)) ∧ e ≠ ⟨job, q.nextAddr⟩) = fun _ => False := by
      funext e
      simp
    rwa [hnone] at hlink
  refine ⟨⟨hin, fun p hlt => ?_⟩, ?_⟩
  · rw [insertEntry_maxPrio, insertNode_maxPrio] at hlt
    have hne : p ≠ job.priority := fun heq => Nat.not_lt_of_le hp (heq ▸ hlt)
    rw [insertEntry_priorityQs, insertNode_priorityQs, Function.update_of_ne hne]
    exact h.bounded p hlt
  · have hnew : ((q.insertNode job).insertEntry job q.nextAddr).Has ⟨job, q.nextAddr⟩ := by
      simp [Has, insertEntry_entries]
    -- The jobs from before keep their entries.
    have hold : ∀ p, ∀ n ∈ q.priorityQs p, ((q.insertNode job).insertEntry job q.nextAddr).jobAt n = q.jobAt n := by
      intro p n hn
      refine jobAt_kept h.inStep hin hn fun e he _ => ?_
      unfold Has at he ⊢
      rw [insertEntry_entries, insertNode_entries]
      split
      · exact List.mem_append_left _ he
      · exact he
    funext p
    rw [Fifo.push_apply]
    unfold jobs
    rw [insertEntry_priorityQs, insertNode_priorityQs]
    split
    · next hpe =>
      subst hpe
      rw [Function.update_self, List.filterMap_append, List.filterMap_congr (hold _)]
      congr 1
      exact List.filterMap_cons_some (jobAt_node hin hnew)
    · next hne =>
      rw [Function.update_of_ne hne, List.filterMap_congr (hold _)]

/-- A `Dequeue` that gets past the tests returns the head of its list and removes only it. -/
theorem Valid.pop (h : q.Valid) {p : Priority} (hne : q.priorityQs p ≠ []) :
    ∃ n q₁ job q₂, q.popNode p = .ok (n, q₁) ∧ q₁.takeEntry p n.jobId = .ok (job, q₂) ∧ q₂.Valid ∧
      q.jobs.Pops p job q₂.jobs := by
  obtain ⟨n, rest, hq⟩ := List.exists_cons_of_ne_nil hne
  obtain ⟨q₁, hpop⟩ : ∃ q₁, q.popNode p = .ok (n, q₁) := by
    unfold popNode
    rw [hq]
    exact ⟨_, rfl⟩
  have hlink := h.inStep.popNode hpop
  obtain ⟨rest', hq', hqs₁, hm₁, -, hmax₁, -⟩ := popNode_ok hpop
  rw [hq] at hq'
  cases hq'
  -- The only pending `Dequeue` is this one.
  obtain ⟨e, q₂, htake, hhas, hep, hen, hlink₂, hent, hqs₂⟩ := hlink.takeEntry (Or.inr ⟨rfl, rfl⟩)
    (fun m hm hmn => absurd (hm.resolve_left not_false).2 hmn) (fun _ ha => ha.elim)
  have hnone : (fun p' m => (False ∨ p' = p ∧ m = n) ∧ ¬(p' = p ∧ m = n)) = fun (_ : Priority) (_ : Node) => False := by
    funext p' m
    simp
  have hin : q₂.InStep := by
    rw [hnone] at hlink₂
    exact hlink₂
  have hhas' : q.Has e := by
    unfold Has entries at hhas ⊢
    rwa [hm₁] at hhas
  have hbound : ∀ p', q₂.maxPrio < p' → q₂.priorityQs p' = [] := fun p' hlt => by
    rw [(takeEntry_gates htake).maxPrio, hmax₁] at hlt
    rw [hqs₂, hqs₁]
    by_cases hp' : p' = p
    · subst hp'
      exact absurd (h.bounded p' hlt) hne
    · rw [Function.update_of_ne hp']
      exact h.bounded p' hlt
  -- A node that stays keeps its entry: only the entry of `n` was taken.
  have hold : ∀ p', ∀ m ∈ q₂.priorityQs p', q₂.jobAt m = q.jobAt m := by
    intro p' m hm
    have hsorted := h.inStep.sorted p
    rw [hq, List.pairwise_cons] at hsorted
    have hmem : m ∈ q.priorityQs p' ∧ m.addr ≠ n.addr := by
      rw [hqs₂, hqs₁] at hm
      by_cases hp' : p' = p
      · subst hp'
        rw [Function.update_self] at hm
        have := hsorted.1 m hm
        exact ⟨by rw [hq]; exact List.mem_cons_of_mem _ hm, by omega⟩
      · rw [Function.update_of_ne hp'] at hm
        refine ⟨hm, fun heq => hp' ?_⟩
        exact (h.inStep.apart p' p m n (Or.inl hm) (Or.inl (by rw [hq]; exact List.mem_cons_self)) heq).1
    refine jobAt_kept h.inStep hin hmem.1 fun x hx hxm => ?_
    have hiter : x.iter ≠ n.addr := fun heq => hmem.2 (by rw [← hxm]; exact heq)
    have hent₁ : q₁.entries = q.entries := by
      funext i
      unfold entries
      rw [hm₁]
    unfold Has at hx ⊢
    rw [hent, hent₁]
    split
    · rw [List.mem_filter]
      exact ⟨hx, by simpa using hiter⟩
    · exact hx
  refine ⟨n, q₁, e.job, q₂, hpop, htake, ⟨hin, hbound⟩, (q.jobs p).tail, ?_, ?_⟩
  · unfold jobs
    rw [hq, ← hen, List.filterMap_cons_some (jobAt_node h.inStep hhas')]
    rfl
  · funext p'
    show (q₂.priorityQs p').filterMap q₂.jobAt = _
    rw [List.filterMap_congr (hold p'), hqs₂, hqs₁]
    by_cases hp' : p' = p
    · subst hp'
      rw [Function.update_self, Function.update_self]
      unfold jobs
      rw [hq, ← hen, List.filterMap_cons_some (jobAt_node h.inStep hhas')]
      rfl
    · rw [Function.update_of_ne hp', Function.update_of_ne hp']
      rfl

theorem Valid.purge (h : q.Valid) (id : JobId) : ∃ count q', q.purge id = .ok (count, q') ∧ q'.Valid ∧
    q'.jobs = q.jobs.drop (·.jobId == id) ∧ count = q.jobs.countId q.maxPrio id := by
  obtain ⟨q', hpurge, hin, hqs, hent⟩ := h.inStep.purge id
  refine ⟨_, q', hpurge, ⟨hin, fun p hlt => ?_⟩, ?_, (h.countId id).symm⟩
  · rw [(purge_gates hpurge).maxPrio] at hlt
    rw [hqs, h.bounded p hlt]
    rfl
  · funext p
    show (q'.priorityQs p).filterMap q'.jobAt = ((q.priorityQs p).filterMap q.jobAt).filter fun job => !(job.jobId == id)
    rw [hqs p]
    have hold : ∀ n ∈ (q.priorityQs p).filter (fun n => n.jobId != id), q'.jobAt n = q.jobAt n := by
      intro n hn
      obtain ⟨hn, hid⟩ := List.mem_filter.mp hn
      refine jobAt_kept h.inStep hin hn fun e he hen => ?_
      have : e.job.jobId ≠ id := by
        rw [← hen] at hid
        simpa [Entry.node] using hid
      unfold Has at he ⊢
      rw [hent]
      simpa [this] using he
    rw [List.filterMap_congr hold]
    exact filterMap_filter_id h.inStep (fun n hn => hn)

/-- A turn of `Dequeue` trips no `CHECK`; it returns the head of the list, or leaves the lists alone. -/
theorem Valid.dequeueTurn (h : q.Valid) (p : Priority) : match q.dequeueTurn p with
    | .waits => True
    | .again q' => q'.Valid ∧ q'.maxPrio = q.maxPrio ∧ q'.jobs = q.jobs
    | .returns q' none => q'.Valid ∧ q'.maxPrio = q.maxPrio ∧ q'.jobs = q.jobs
    | .returns q' (some job) => q'.Valid ∧ q'.maxPrio = q.maxPrio ∧ q.jobs.Pops p job q'.jobs
    | .fault _ => False := by
  have hclose : (q.closeGate p).Valid := h.congr rfl rfl rfl rfl
  unfold MultiQueue.dequeueTurn
  dsimp only
  by_cases hgate : q.notEmpty p = false
  · simp [hgate]
  by_cases hflag : (q.closeGate p).releaseOne p = true
  · simp only [hgate, hflag, ↓reduceIte]
    exact ⟨h.congr rfl rfl rfl rfl, rfl, jobs_congr rfl rfl⟩
  by_cases hempty : q.priorityQs p = []
  · by_cases hrel : q.released = true
    · simp only [hgate, hflag, closeGate_priorityQs, closeGate_released, hempty, hrel, List.isEmpty_nil, Bool.and_true,
        Bool.false_eq_true, ↓reduceIte]
      exact ⟨h.congr rfl rfl rfl rfl, rfl, jobs_congr rfl rfl⟩
    · simp only [hgate, hflag, closeGate_priorityQs, closeGate_released, hempty, hrel, List.isEmpty_nil, Bool.and_false,
        Bool.false_eq_true, ↓reduceIte]
      exact ⟨hclose, rfl, jobs_congr rfl rfl⟩
  · have hne : (q.priorityQs p).isEmpty = false := by simpa using hempty
    obtain ⟨n, q₁, job, q₂, hpop, htake, hvalid, hpops⟩ := hclose.pop hempty
    obtain ⟨-, -, -, -, -, hmax, -⟩ := popNode_ok hpop
    simp only [hgate, hflag, closeGate_priorityQs, hne, Bool.false_and, Bool.false_eq_true, ↓reduceIte, hpop, htake]
    exact ⟨hvalid, (takeEntry_gates htake).maxPrio.trans hmax, hpops⟩

/-- Any call keeps the invariant, trips no `CHECK` and is a step of the lists. -/
theorem Valid.call (h : q.Valid) {op : Op T} (hop : op.InRange q.maxPrio) : match q.call op with
    | .done q' ret => q'.Valid ∧ q'.maxPrio = q.maxPrio ∧ Jobs.Step q.maxPrio q.jobs op ret q'.jobs
    | .blocked q' => q'.Valid ∧ q'.maxPrio = q.maxPrio ∧ (∃ p, op = .dequeue p) ∧ q'.jobs = q.jobs
    | .fault _ => False := by
  cases op with
  | enqueue job =>
    have hp : job.priority ≤ q.maxPrio := hop
    obtain ⟨hvalid, hjobs⟩ := h.enqueue hp
    simp only [MultiQueue.call, MultiQueue.enqueue, hp, ↓reduceIte]
    exact ⟨hvalid, by simp, hjobs⟩
  | dequeue p =>
    have hp : p ≤ q.maxPrio := hop
    have hturn := h.dequeueTurn p
    simp only [MultiQueue.call, MultiQueue.dequeue, hp, ↓reduceIte]
    cases ht : q.dequeueTurn p with
    | waits => exact ⟨h, rfl, ⟨p, rfl⟩, rfl⟩
    | again q' =>
      rw [ht] at hturn
      exact ⟨hturn.1, hturn.2.1, ⟨p, rfl⟩, hturn.2.2⟩
    | returns q' job =>
      rw [ht] at hturn
      cases job <;> exact hturn
    | fault f =>
      rw [ht] at hturn
      exact hturn
  | purge id =>
    obtain ⟨count, q', hpurge, hvalid, hjobs, hcount⟩ := h.purge id
    simp only [MultiQueue.call, hpurge]
    exact ⟨hvalid, (purge_gates hpurge).maxPrio, hjobs, hcount⟩
  | releaseOne p =>
    have hp : p ≤ q.maxPrio := hop
    simp only [MultiQueue.call, hp, ↓reduceIte, releaseOneAt]
    split
    · exact ⟨h.congr rfl rfl rfl rfl, rfl, jobs_congr rfl rfl⟩
    · exact ⟨h, rfl, rfl⟩
  | releaseQueues => exact ⟨h.congr rfl rfl rfl rfl, rfl, jobs_congr rfl rfl⟩

/-- A purge of an id that only these jobs at the ends of the lists have. -/
theorem Valid.purge_pushes (h : q.Valid) {jobId : JobId} {f : Fifo Priority (Job T)} {dups : List (Job T)}
    (hjobs : q.jobs = f.pushes (·.priority) dups)
    (hrange : ∀ dup ∈ dups, dup.priority ≤ q.maxPrio) (hid : ∀ dup ∈ dups, dup.jobId = jobId)
    (hfresh : ∀ p, ∀ j ∈ f p, j.jobId ≠ jobId) :
    ∃ q', q.call (.purge jobId) = .done q' (.purged dups.length) ∧ q'.jobs = f := by
  obtain ⟨count, q', hpurge, -, hdrop, hcount⟩ := h.purge jobId
  have hid' : ∀ dup ∈ dups, (dup.jobId == jobId) = true := fun dup hdup => beq_iff_eq.mpr (hid dup hdup)
  have hnone : ∀ p, ∀ j ∈ f p, (j.jobId == jobId) = false := fun p j hj => beq_eq_false_iff_ne.mpr (hfresh p j hj)
  have hall : count = dups.length := by
    have hmem : ∀ dup ∈ dups, dup.priority ∈ Finset.range (q.maxPrio + 1) :=
      fun dup hdup => Finset.mem_range.mpr (Nat.lt_succ_of_le (hrange dup hdup))
    have hsum := Fifo.count_pushes (f := f) (d := fun j => j.jobId == jobId) hmem
    rw [Fifo.count_of_none hnone, List.countP_eq_length.mpr hid', Nat.zero_add] at hsum
    rw [hcount, hjobs]
    exact hsum
  refine ⟨q', ?_, by rw [hdrop, hjobs, Fifo.drop_pushes hid', Fifo.drop_of_none hnone]⟩
  dsimp only [MultiQueue.call]
  rw [hpurge, hall]

/-- A job that goes into an empty list comes out with the next `Dequeue`, and the lists are as before. -/
theorem Valid.enqueue_dequeue (h : q.Valid) {job : Job T} (hp : job.priority ≤ q.maxPrio)
    (hempty : q.jobs job.priority = []) (hflag : q.releaseOne job.priority = false) :
    ∃ q₁ q₂, q.call (.enqueue job) = .done q₁ .void ∧ q₁.call (.dequeue job.priority) = .done q₂ (.job (some job)) ∧
      q₂.Valid ∧ q₂.maxPrio = q.maxPrio ∧ q₂.jobs = q.jobs ∧ q₂.releaseOne = q.releaseOne := by
  have hnodes : q.priorityQs job.priority = [] := by
    refine List.eq_nil_iff_forall_not_mem.mpr fun n hn => ?_
    obtain ⟨job', hjob, -⟩ := jobAt_of_mem h.inStep hn
    have hmem : job' ∈ q.jobs job.priority := List.mem_filterMap.mpr ⟨n, hn, hjob⟩
    rw [hempty] at hmem
    cases hmem
  obtain ⟨hvalid, hjobs⟩ := h.enqueue hp
  have hgates := insertEntry_gates (q.insertNode job) job q.nextAddr
  have hqs : ((q.insertNode job).insertEntry job q.nextAddr).priorityQs job.priority = [⟨q.nextAddr, job.jobId⟩] := by
    rw [insertEntry_priorityQs, insertNode_priorityQs, Function.update_self, hnodes, List.nil_append]
  have hopen : ((q.insertNode job).insertEntry job q.nextAddr).notEmpty job.priority = true := by
    rw [hgates.notEmpty]
    simp [insertNode, hnodes, openGate]
  have hone : ((q.insertNode job).insertEntry job q.nextAddr).releaseOne = q.releaseOne := by
    rw [hgates.releaseOne]
    unfold insertNode
    dsimp only
    split <;> rfl
  have hmax : ((q.insertNode job).insertEntry job q.nextAddr).maxPrio = q.maxPrio := by simp
  have hcall : q.call (.enqueue job) = .done ((q.insertNode job).insertEntry job q.nextAddr) .void := by
    simp [MultiQueue.call, MultiQueue.enqueue, hp]
  generalize (q.insertNode job).insertEntry job q.nextAddr = q₁ at *
  have hclose : (q₁.closeGate job.priority).Valid := hvalid.congr rfl rfl rfl rfl
  obtain ⟨n, q₂, job', q₃, hpop, htake, hvalid₃, rest, hhead, hrest⟩ := hclose.pop (p := job.priority) (by simp [hqs])
  obtain ⟨-, -, -, -, -, hmax₂, -, hone₂, -⟩ := popNode_ok hpop
  have hgates₃ := takeEntry_gates htake
  have hjobs₁ : (q₁.closeGate job.priority).jobs = q.jobs.push job.priority job := (jobs_congr rfl rfl).trans hjobs
  -- The list holds nothing but the job.
  rw [hjobs₁, Fifo.push_apply, if_pos rfl, hempty] at hhead
  obtain ⟨rfl, rfl⟩ : job = job' ∧ [] = rest := by simpa using hhead
  refine ⟨q₁, q₃, hcall, ?_, hvalid₃, ?_, ?_, ?_⟩
  · have hp₁ : job.priority ≤ q₁.maxPrio := hmax ▸ hp
    have hflag₁ : q₁.releaseOne job.priority = false := by rw [hone, hflag]
    simp [MultiQueue.call, MultiQueue.dequeue, MultiQueue.dequeueTurn, hp₁, hopen, hflag₁, hqs, hpop, htake]
  · rw [hgates₃.maxPrio, hmax₂, closeGate_maxPrio, hmax]
  · rw [hrest, hjobs₁, Fifo.push, Function.update_idem, ← hempty, Function.update_eq_self]
  · rw [hgates₃.releaseOne, hone₂, closeGate_releaseOne, hone]

/-- Any calls in range keep the invariant and trip no `CHECK`. -/
theorem Valid.run : ∀ {ops : List (Op T)} {q : MultiQueue T}, q.Valid → (∀ op ∈ ops, op.InRange q.maxPrio) →
    ∃ q', q.run ops = .ok q' ∧ q'.Valid ∧ q'.maxPrio = q.maxPrio
  | [], q, h, _ => ⟨q, rfl, h, rfl⟩
  | op :: ops, q, h, hops => by
    have hcall := h.call (hops op List.mem_cons_self)
    unfold MultiQueue.run
    cases hc : q.call op with
    | done q₁ ret =>
      rw [hc] at hcall
      obtain ⟨q', hrun, hv, hmax⟩ := hcall.1.run fun op' hop' => hcall.2.1 ▸ hops op' (List.mem_cons_of_mem _ hop')
      exact ⟨q', hrun, hv, hmax.trans hcall.2.1⟩
    | blocked q₁ =>
      rw [hc] at hcall
      obtain ⟨q', hrun, hv, hmax⟩ := hcall.1.run fun op' hop' => hcall.2.1 ▸ hops op' (List.mem_cons_of_mem _ hop')
      exact ⟨q', hrun, hv, hmax.trans hcall.2.1⟩
    | fault f =>
      rw [hc] at hcall
      exact hcall.elim

/-- A call on `q` trips no `CHECK` and erases no stale iterator; if it completes, it does to the lists
    what `Jobs.Step` says of its result; only a `Dequeue` may block, and it changes no list. -/
def Refines (maxPrio : Priority) (q : MultiQueue T) (op : Op T) : Prop :=
  match q.call op with
  | .done q' ret => Jobs.Step maxPrio q.jobs op ret q'.jobs
  | .blocked q' => (∃ p, op = .dequeue p) ∧ q'.jobs = q.jobs
  | .fault _ => False

theorem Valid.refines (h : q.Valid) {op : Op T} (hop : op.InRange q.maxPrio) : Refines q.maxPrio q op := by
  have hcall := h.call hop
  unfold Refines
  cases hc : q.call op with
  | done q' ret =>
    rw [hc] at hcall
    exact hcall.2.2
  | blocked q' =>
    rw [hc] at hcall
    exact hcall.2.2
  | fault f =>
    rw [hc] at hcall
    exact hcall

/-! ### Calls by the job that they hand out -/

section Result
variable {op : Op T} {ret : Option (Job T)}

/-- What a call does to the lists, by the job that it hands out. -/
def Op.Lists (op : Op T) (ret : Option (Job T)) (jobs jobs' : Jobs T) : Prop :=
  match op, ret with
  | .enqueue job, _ => jobs' = jobs.push job.priority job
  | .dequeue p, some job => jobs.Pops p job jobs'
  | .purge id, _ => jobs' = jobs.drop (·.jobId == id)
  | _, _ => jobs' = jobs

theorem lists_of_step {maxPrio : Priority} {r : Ret T} {jobs jobs' : Jobs T} (h : Jobs.Step maxPrio jobs op r jobs') :
    op.Lists r.handed jobs jobs' := by
  cases op with
  | enqueue job | releaseOne p | releaseQueues =>
    cases r with
    | void => exact h
    | job _ | purged _ => exact h.elim
  | dequeue p =>
    cases r with
    | job job => cases job <;> exact h
    | void | purged _ => exact h.elim
  | purge id =>
    cases r with
    | purged count => exact h.1
    | void | job _ => exact h.elim

theorem inRange_of_result (h : (q.call op).result = .ok (q', ret)) : op.InRange q.maxPrio := by
  by_contra hop
  cases op with
  | enqueue job =>
    have hp : ¬job.priority ≤ q.maxPrio := hop
    simp [call, enqueue, hp, Outcome.result] at h
  | dequeue p =>
    have hp : ¬p ≤ q.maxPrio := hop
    simp [call, dequeue, hp, Outcome.result] at h
  | releaseOne p =>
    have hp : ¬p ≤ q.maxPrio := hop
    simp [call, hp, Outcome.result] at h
  | purge id => exact hop trivial
  | releaseQueues => exact hop trivial

/-- A call that does not stop the process was in range, keeps the invariant and is a step of the lists. -/
theorem Valid.result (h : q.Valid) (hr : (q.call op).result = .ok (q', ret)) :
    op.InRange q.maxPrio ∧ q'.Valid ∧ q'.maxPrio = q.maxPrio ∧ op.Lists ret q.jobs q'.jobs := by
  have hop := inRange_of_result hr
  have hcall := h.call hop
  cases hc : q.call op with
  | done q₁ r =>
    rw [hc] at hcall hr
    obtain ⟨hvalid, hmax, hstep⟩ := hcall
    cases hr
    exact ⟨hop, hvalid, hmax, lists_of_step hstep⟩
  | blocked q₁ =>
    rw [hc] at hcall hr
    obtain ⟨hvalid, hmax, ⟨p, rfl⟩, hjobs⟩ := hcall
    cases hr
    exact ⟨hop, hvalid, hmax, hjobs⟩
  | fault f =>
    rw [hc] at hr
    cases hr

end Result

/-- A `MultiQueue` refines its lists of jobs: a fresh queue stands for empty lists, and after any calls
    on it every further call is a step of the lists. -/
theorem multiQueue_refines_jobs {maxPriority : Priority} {ops : List (Op T)}
    (hops : ∀ op ∈ ops, op.InRange maxPriority) :
    (MultiQueue.new maxPriority : MultiQueue T).jobs = Fifo.empty ∧
      ∃ q, (MultiQueue.new maxPriority).run ops = .ok q ∧
        ∀ op : Op T, op.InRange maxPriority → Refines maxPriority q op := by
  obtain ⟨q, hrun, hvalid, hmax⟩ := (Valid.new (T := T)).run hops
  have hmax' : q.maxPrio = maxPriority := hmax
  exact ⟨rfl, q, hrun, fun op hop => hmax' ▸ hvalid.refines (hmax'.symm ▸ hop)⟩

/-- Two jobs of one id at one priority, and a third of another id. -/
theorem multiQueue_refines_jobs_three : ∃ q : MultiQueue Nat,
    (MultiQueue.new 1).run [.enqueue ⟨7, 0, 0, 10⟩, .enqueue ⟨7, 0, 0, 11⟩, .enqueue ⟨8, 1, 0, 12⟩] = .ok q ∧
      ∀ op : Op Nat, op.InRange 1 → Refines 1 q op := by
  have hops : ∀ op ∈ ([.enqueue ⟨7, 0, 0, 10⟩, .enqueue ⟨7, 0, 0, 11⟩, .enqueue ⟨8, 1, 0, 12⟩] : List (Op Nat)),
      op.InRange 1 := by simp [Op.InRange]
  exact (multiQueue_refines_jobs hops).2

end Dans.MultiQueue
