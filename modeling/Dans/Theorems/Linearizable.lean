import Dans.AtomicQueue
import Dans.Lib.Atomic
import Dans.Lib.Ghost
import Dans.Theorems.Gates

/-! Threads that call one `MultiQueue` at the same time, none of them `ReleaseOne`, see an atomic object. An `Enqueue`
    takes effect when it inserts its node and a `Dequeue` that returns a job when it pops the node, though the map
    follows later; the other calls take effect where they return. -/

namespace Dans.Threads
open MultiQueue

variable {Tid T : Type}

/-! ### What the threads see -/

section Observe
variable [Fintype Tid] [DecidableEq Tid]

/-- What a step to this point shows: the return, if it ends the call. -/
def Pc.returned (t : Tid) : Pc T → List (Atomic.Event Tid (Op T) (Ret T))
  | idle (some ret) => [.ret t ret]
  | _ => []

/-- The call or the return that a label shows. -/
def Sys.observe (s : Sys Tid T) : Label Tid T → List (Atomic.Event Tid (Op T) (Ret T))
  | .call t op => [.call t op]
  | .step t => (s.step t).elim [] fun s' => (s'.pc t).returned t

/-- The calls and returns of a run, in their order. -/
def calls (xs : List (Sys Tid T × Label Tid T)) : List (Atomic.Event Tid (Op T) (Ret T)) :=
  xs.flatMap fun x => x.1.observe x.2

variable {s s' : Sys Tid T} {t : Tid}

theorem observe_step (h : s.next (.step t) = some s') : s.observe (.step t) = (s'.pc t).returned t := by
  simp only [Sys.next] at h
  split at h
  · cases h
  · simp [Sys.observe, h]

theorem idle_of_call {op : Op T} (h : s.next (.call t op) = some s') : (s.pc t).isIdle = true := by
  simp only [Sys.next] at h
  split at h
  · cases h
  · next hidle => simpa using (not_or.mp (Bool.or_eq_true_iff.not.mp hidle)).2

end Observe

/-! ### Where the atomic object is -/

/-- The operation of a call that has not taken effect. -/
def Pc.pending : Pc T → Option (Op T)
  | enqPurge job | enqQueue job | enqInsert job => some (.enqueue job)
  | deqGate p | deqFlag p | deqPurge p | deqTest p | deqQueue p | deqPop p => some (.dequeue p)
  | purgeLock id | purgeBody id => some (.purge id)
  | oneLock p | oneQueue p | oneBody p => some (.releaseOne p)
  | allLock | allBody => some .releaseQueues
  | idle _ | enqMapLock _ _ | enqMap _ _ | deqMapLock _ _ | deqMap _ _ => none

/-- The job of a node: its entry is in the map, or its `Enqueue` is about to put it there. -/
structure Sys.Stands (s : Sys Tid T) (p : Priority) (n : Node) (job : Job T) : Prop where
  live : s.q.Has ⟨job, n.addr⟩ ∨ s.Added ⟨job, n.addr⟩
  priority : job.priority = p
  jobId : job.jobId = n.jobId

theorem Sys.Stands.mono {s s' : Sys Tid T} {p : Priority} {n : Node} {job : Job T} (h : s.Stands p n job)
    (live : ∀ e, s.q.Has e ∨ s.Added e → s'.q.Has e ∨ s'.Added e) : s'.Stands p n job :=
  ⟨live _ h.live, h.priority, h.jobId⟩

theorem Sys.Stands.node {s : Sys Tid T} {p : Priority} {n : Node} {job : Job T} (h : s.Stands p n job) :
    (⟨job, n.addr⟩ : Entry T).node = n := by
  simp [Entry.node, h.jobId]

/-- Where a thread of the atomic object is when the thread of the queue is at a point. -/
inductive Pc.At (stands : Priority → Node → Job T → Prop) : Pc T → Atomic.Phase (Op T) (Ret T) → Prop where
  | idle {ret : Option (Ret T)} : At stands (.idle ret) .outside
  | pending {c : Pc T} {op : Op T} (pending : c.pending = some op) : At stands c (.called op)
  | adds {c : Pc T} {e : Entry T} (adds : c.adds = some e) : At stands c (.done .void)
  | pops {c : Pc T} {p : Priority} {n : Node} {job : Job T} (pops : c.pops = some (p, n)) (stood : stands p n job) :
      At stands c (.done (.job (some job)))

/-- The atomic object has the jobs of the nodes, and each thread of it is where its thread of the queue is. -/
structure Linear (s : Sys Tid T) (a : Atomic.State Tid (AtomicQueue T) (Op T) (Ret T)) : Prop where
  jobs : ∀ p, List.Forall₂ (s.Stands p) (s.q.priorityQs p) (a.obj.jobs p)
  released : a.obj.released = s.q.released
  phase : ∀ t, (s.pc t).At s.Stands (a.phase t)

theorem forall₂_imp_mem {α β : Type} {R S : α → β → Prop} {l : List α} {m : List β} (h : List.Forall₂ R l m)
    (himp : ∀ x ∈ l, ∀ y, R x y → S x y) : List.Forall₂ S l m := by
  induction h with
  | nil => exact .nil
  | cons hxy _ ih =>
    exact .cons (himp _ List.mem_cons_self _ hxy) (ih fun x hx => himp x (List.mem_cons_of_mem _ hx))

namespace Linear

variable {s : Sys Tid T} {a : Atomic.State Tid (AtomicQueue T) (Op T) (Ret T)} {t : Tid}

theorem outside (h : Linear s a) (idle : (s.pc t).isIdle = true) : a.phase t = .outside := by
  have ht := h.phase t
  generalize s.pc t = c at ht idle
  generalize a.phase t = φ at ht
  cases c <;> cases idle
  cases ht with
  | idle => rfl
  | pending pending => cases pending
  | adds adds => cases adds
  | pops pops _ => cases pops

theorem called (h : Linear s a) (op : Op T) (hop : (s.pc t).pending = some op) : a.phase t = .called op := by
  have ht := h.phase t
  generalize s.pc t = c at ht hop
  generalize a.phase t = φ at ht
  cases ht with
  | idle => cases hop
  | pending pending => rw [Option.some.inj (hop.symm.trans pending)]
  | adds adds => rcases Pc.adds_cases adds with rfl | rfl <;> cases hop
  | pops pops _ => rcases Pc.pops_cases pops with rfl | rfl <;> cases hop

theorem done_void (h : Linear s a) {e : Entry T} (he : (s.pc t).adds = some e) : a.phase t = .done .void := by
  have ht := h.phase t
  generalize s.pc t = c at ht he
  generalize a.phase t = φ at ht
  rcases Pc.adds_cases he with rfl | rfl <;>
    cases ht with
    | pending pending => cases pending
    | adds _ => rfl
    | pops pops _ => cases pops

theorem done_job (h : Linear s a) {p : Priority} {n : Node} (hn : (s.pc t).pops = some (p, n)) :
    ∃ job, a.phase t = .done (.job (some job)) ∧ s.Stands p n job := by
  have ht := h.phase t
  generalize s.pc t = c at ht hn
  generalize a.phase t = φ at ht
  cases ht with
  | idle => cases hn
  | pending pending => rcases Pc.pops_cases hn with rfl | rfl <;> cases pending
  | adds adds => rcases Pc.pops_cases hn with rfl | rfl <;> cases adds
  | pops pops job =>
    cases hn.symm.trans pops
    exact ⟨_, rfl, job⟩

theorem isEmpty_iff (h : Linear s a) (p : Priority) : (a.obj.jobs p).isEmpty = (s.q.priorityQs p).isEmpty := by
  have hall := h.jobs p
  generalize a.obj.jobs p = jobs at hall
  generalize s.q.priorityQs p = nodes at hall
  cases hall <;> rfl

/-- Where no call is between its two sections, the object has the lists of jobs that the queue stands for. -/
theorem jobs_eq (h : Linear s a) (inStep : s.q.InStep) (none : ∀ e, ¬s.Added e) : a.obj.jobs = s.q.jobs := by
  have key : ∀ {p : Priority} {nodes : List Node} {jobs : List (Job T)}, List.Forall₂ (s.Stands p) nodes jobs →
      jobs = nodes.filterMap s.q.jobAt := by
    intro p nodes jobs hall
    induction hall with
    | nil => rfl
    | @cons n job _ _ stands _ ih =>
      have hjob : s.q.jobAt n = some job := stands.node ▸ jobAt_node inStep (stands.live.resolve_right (none _))
      rw [List.filterMap_cons_some hjob, ih]
  funext p
  exact key (h.jobs p)

/-! ### Steps -/

variable [DecidableEq Tid] {q : MultiQueue T} {c : Pc T} {φ : Atomic.Phase (Op T) (Ret T)} {obj : AtomicQueue T}

/-- A thread leaves the queue as `q` and goes to `c`, and the nodes that other threads have popped keep their jobs. -/
theorem become (h : Linear s a) (jobs : ∀ p, List.Forall₂ ((s.become t q c).Stands p) (q.priorityQs p) (obj.jobs p))
    (released : obj.released = q.released)
    (phase : c.At (s.become t q c).Stands φ)
    (others : ∀ u, u ≠ t → ∀ p n job, (s.pc u).pops = some (p, n) → s.Stands p n job → (s.become t q c).Stands p n job) :
    Linear (s.become t q c) ⟨obj, Function.update a.phase t φ⟩ where
  jobs := jobs
  released := released
  phase u := by
    by_cases hut : u = t
    · subst hut
      simpa [Sys.become] using phase
    · have hu := h.phase u
      simp only [Sys.become, Function.update_of_ne hut]
      generalize hc : s.pc u = c' at hu
      generalize a.phase u = φ' at hu
      cases hu with
      | idle => exact .idle
      | pending pending => exact .pending pending
      | adds adds => exact .adds adds
      | pops pops job => exact .pops pops (others u hut _ _ _ (hc ▸ pops) job)

/-- The same, where no entry is given up. -/
theorem grow (h : Linear s a) (live : ∀ e, s.q.Has e ∨ s.Added e → q.Has e ∨ (s.become t q c).Added e)
    (jobs : ∀ p, List.Forall₂ ((s.become t q c).Stands p) (q.priorityQs p) (obj.jobs p))
    (released : obj.released = q.released)
    (phase : c.At (s.become t q c).Stands φ) : Linear (s.become t q c) ⟨obj, Function.update a.phase t φ⟩ :=
  h.become jobs released phase fun _ _ _ _ _ _ stands => stands.mono live

/-- A step between two points with the same entry to put in, that leaves lists and map alone. -/
theorem frame (h : Linear s a) (hand : HandOver s) (hq : q.priorityQs = s.q.priorityQs)
    (hm : q.valueMapper = s.q.valueMapper) (hadds : c.adds = (s.pc t).adds) (hobj : obj.jobs = a.obj.jobs)
    (released : obj.released = q.released)
    (phase : c.At s.Stands φ) : Linear (s.become t q c) ⟨obj, Function.update a.phase t φ⟩ := by
  have hlive : ∀ e, s.q.Has e ∨ s.Added e ↔ q.Has e ∨ (s.become t q c).Added e := by
    intro e
    rw [hand.added_become, HandOver.pending_iff hadds]
    simp only [Has, entries, hm]
  have hstands : (s.become t q c).Stands = s.Stands := by
    funext p n job
    exact propext ⟨fun stands => stands.mono fun e => (hlive e).mpr, fun stands => stands.mono fun e => (hlive e).mp⟩
  refine h.grow (fun e => (hlive e).mp) (fun p => ?_) released (hstands ▸ phase)
  rw [hstands, hq, hobj]
  exact h.jobs p

theorem insert (h : Linear s a) (hand : HandOver s) {job : Job T} (pc : s.pc t = .enqInsert job) :
    Linear (s.become t (s.q.insertNode job) (.enqMapLock job s.q.nextAddr))
      ⟨{ a.obj with jobs := a.obj.jobs.push job.priority job }, Function.update a.phase t (.done .void)⟩ := by
  have hlive : ∀ e, s.q.Has e ∨ s.Added e → (s.q.insertNode job).Has e ∨
      (s.become t (s.q.insertNode job) (.enqMapLock job s.q.nextAddr)).Added e := by
    rintro e (hhas | hadd)
    · exact Or.inl (by simpa [Has] using hhas)
    · exact Or.inr (hand.added_become.mpr (Or.inr ⟨hadd, by simp [pc, Pc.adds]⟩))
  refine h.grow hlive (fun p => ?_) (by simpa using h.released) (.adds rfl)
  have hall : List.Forall₂ ((s.become t (s.q.insertNode job) (.enqMapLock job s.q.nextAddr)).Stands p) (s.q.priorityQs p)
      (a.obj.jobs p) := (h.jobs p).imp fun _ _ stands => stands.mono hlive
  dsimp only
  rw [insertNode_priorityQs, Fifo.push_apply, Function.update_apply]
  split
  · next hp =>
    subst hp
    refine List.rel_append hall (.cons ⟨?_, rfl, rfl⟩ .nil)
    exact Or.inr (hand.added_become.mpr (Or.inl rfl))
  · exact hall

theorem entry (h : Linear s a) (hand : HandOver s) {job : Job T} {iter : Nat} (pc : s.pc t = .enqMap job iter)
    {ret : Option (Ret T)} :
    Linear (s.become t (s.q.insertEntry job iter) (.idle ret)) ⟨a.obj, Function.update a.phase t .outside⟩ := by
  have hgates := insertEntry_gates s.q job iter
  have hlive : ∀ e, s.q.Has e ∨ s.Added e →
      (s.q.insertEntry job iter).Has e ∨ (s.become t (s.q.insertEntry job iter) (.idle ret)).Added e := by
    intro e he
    by_cases hnew : e = ⟨job, iter⟩
    · rw [hnew]
      exact Or.inl (by simp [Has, insertEntry_entries])
    rcases he with hhas | hadd
    · refine Or.inl ?_
      unfold Has at hhas ⊢
      rw [insertEntry_entries]
      split
      · exact List.mem_append_left _ hhas
      · exact hhas
    · refine Or.inr (hand.added_become.mpr (Or.inr ⟨hadd, ?_⟩))
      simpa [pc, Pc.adds] using Ne.symm hnew
  refine h.grow hlive (fun p => ?_) (h.released.trans hgates.released.symm) .idle
  rw [insertEntry_priorityQs]
  exact (h.jobs p).imp fun _ _ stands => stands.mono hlive

theorem pop (h : Linear s a) (hand : HandOver s) {p : Priority} {n : Node} (pc : s.pc t = .deqPop p)
    (popped : s.q.popNode p = .ok (n, q)) : ∃ job obj, a.obj.Takes p job obj ∧
      Linear (s.become t q (.deqMapLock p n)) ⟨obj, Function.update a.phase t (.done (.job (some job)))⟩ := by
  obtain ⟨rest, hlist, hlists, hmap, -, -, hreleased, -⟩ := popNode_ok popped
  have hlive : ∀ e, s.q.Has e ∨ s.Added e → q.Has e ∨ (s.become t q (.deqMapLock p n)).Added e := by
    intro e he
    rw [hand.added_become, HandOver.pending_iff (by simp [pc, Pc.adds])]
    simpa only [Has, entries, hmap] using he
  have hp := h.jobs p
  rw [hlist] at hp
  generalize hjobs : a.obj.jobs p = jobs at hp
  obtain ⟨job, jobs', hjob, hrest, rfl⟩ := List.forall₂_cons_left_iff.mp hp
  refine ⟨job, { a.obj with jobs := Function.update a.obj.jobs p jobs' }, ⟨_, ⟨jobs', hjobs, rfl⟩, rfl⟩, ?_⟩
  refine h.grow hlive (fun p' => ?_) (h.released.trans hreleased.symm)
    (.pops rfl (hjob.mono hlive))
  rw [hlists]
  dsimp only
  rw [Function.update_apply, Function.update_apply]
  split
  · next hpp =>
    rw [hpp]
    exact hrest.imp fun _ _ stands => stands.mono hlive
  · exact (h.jobs p').imp fun _ _ stands => stands.mono hlive

theorem take (h : Linear s a) (hand : HandOver s) (locks : Locks s) {p : Priority} {n : Node} {job : Job T}
    (pc : s.pc t = .deqMap p n) (taken : s.q.takeEntry p n.jobId = .ok (job, q)) {ret : Option (Ret T)} :
    a.phase t = .done (.job (some job)) ∧
      Linear (s.become t q (.idle ret)) ⟨a.obj, Function.update a.phase t .outside⟩ := by
  obtain ⟨e, q', htake, hhas, -, hnode, -, hent, hlists⟩ := hand.takeEntry locks pc
  have hgates := takeEntry_gates taken
  rw [htake] at taken
  cases taken
  have hpops : (s.pc t).pops = some (p, n) := by simp [pc, Pc.pops]
  constructor
  · -- The entry that is found is the one of the popped node.
    obtain ⟨job, hphase, stands⟩ := h.done_job hpops
    have hhas' : s.q.Has ⟨job, n.addr⟩ :=
      stands.live.resolve_right fun hadd => hand.added_ne locks pc hadd stands.priority stands.node
    have heq := hand.linked.has_inj hhas' hhas (congrArg Node.addr hnode).symm
    rw [hphase, ← heq]
  · have hkeep : ∀ p' m job, m.addr ≠ n.addr → s.Stands p' m job → (s.become t q (.idle ret)).Stands p' m job := by
      intro p' m job hne stands
      refine ⟨?_, stands.priority, stands.jobId⟩
      rcases stands.live with hhas | hadd
      · refine Or.inl ?_
        unfold Has at hhas ⊢
        rw [become_q, hent]
        split
        · exact List.mem_filter.mpr ⟨hhas, by simpa using hne⟩
        · exact hhas
      · exact Or.inr (hand.added_become.mpr (Or.inr ⟨hadd, by simp [pc, Pc.adds]⟩))
    refine h.become (fun p' => ?_) (h.released.trans hgates.released.symm)
      .idle fun u hut p' m job hm stands => hkeep p' m job (fun heq => hut ?_) stands
    · rw [hlists]
      refine forall₂_imp_mem (h.jobs p') fun m hm job stands => hkeep p' m job (fun heq => ?_) stands
      obtain ⟨rfl, rfl⟩ := hand.linked.apart p' p m n (Or.inl hm) (Or.inr ⟨t, hpops⟩) heq
      exact lt_irrefl _ (hand.linked.front p' m ⟨t, hpops⟩ m hm)
    · obtain ⟨rfl, rfl⟩ := hand.linked.apart p' p m n (Or.inr ⟨u, hm⟩) (Or.inr ⟨t, hpops⟩) heq
      exact hand.popsOne _ u t hm hpops

theorem purge (h : Linear s a) (hand : HandOver s) (locks : Locks s) (bounded : Bounded s) {id : JobId} {count : Nat}
    (pc : s.pc t = .purgeBody id) (purged : s.q.purge id = .ok (count, q)) {ret : Option (Ret T)} :
    count = a.obj.jobs.countId s.q.maxPrio id ∧
      Linear (s.become t q (.idle ret))
        ⟨{ a.obj with jobs := a.obj.jobs.drop (·.jobId == id) }, Function.update a.phase t .outside⟩ := by
  have hex : (s.pc t).exclusive = true := by simp [pc, Pc.exclusive]
  have hgates := purge_gates purged
  have hadds : ∀ e, ¬s.Added e := by
    rintro e ⟨u, hu⟩
    simpa [locks.shared_of_exclusive hex u] using Pc.shared_of_adds hu
  have hpops : ∀ u x, (s.pc u).pops ≠ some x := fun u x hu => by
    simpa [locks.shared_of_exclusive hex u] using Pc.shared_of_pops hu
  have hvalid : s.q.Valid := ⟨hand.inStep locks hex, bounded.lists⟩
  obtain ⟨q', hpurge, -, hlists, hent⟩ := hvalid.inStep.purge id
  rw [hpurge] at purged
  cases purged
  refine ⟨by rw [h.jobs_eq hvalid.inStep hadds, hvalid.countId], ?_⟩
  refine h.become (fun p => ?_) (h.released.trans hgates.released.symm) .idle
    fun u _ p n job hu => absurd hu (hpops u _)
  -- The nodes of the id and its jobs leave together; the other entries stay.
  have hfilter : List.Forall₂ (s.Stands p) ((s.q.priorityQs p).filter fun n => n.jobId != id)
      ((a.obj.jobs p).filter fun job => !(job.jobId == id)) := by
    refine List.rel_filter (fun n job stands => ?_) (h.jobs p)
    simp [stands.jobId]
  rw [hlists p]
  refine forall₂_imp_mem hfilter fun n hn job stands => ⟨Or.inl ?_, stands.priority, stands.jobId⟩
  have hne : job.jobId ≠ id := by simpa [stands.jobId] using (List.mem_filter.mp hn).2
  have hhas := stands.live.resolve_right (hadds _)
  unfold Has at hhas ⊢
  rw [become_q, hent]
  simpa [hne] using hhas

end Linear

/-! ### Whole runs -/

/-- The priority that a call has checked. -/
def Pc.checked : Pc T → Option Priority
  | enqInsert job => some job.priority
  | deqGate p | deqFlag p | deqPurge p | deqTest p | deqQueue p | deqPop p | oneBody p => some p
  | _ => none

/-- A priority that a call has checked is one of the queue's. -/
def Checked (s : Sys Tid T) : Prop := ∀ t p, (s.pc t).checked = some p → p ≤ s.q.maxPrio

section Steps
variable {s s' : Sys Tid T} {l : Label Tid T} {c c' : Pc T}

theorem Goes.checked (goes : Goes s c c') {p : Priority} (hp : c'.checked = some p) :
    c.checked = some p ∨ p ≤ s.q.maxPrio := by
  cases goes with
  | enqQueue range _ | oneQueue range _ =>
    cases hp
    exact Or.inr range
  | deqFlag _ | deqPurge _ | deqAgain _ _ | deqTest _ | deqQueue _ => exact Or.inl hp
  | enqPurge _ | enqMapLock _ | deqMapLock _ | purgeLock _ | oneLock _ | allLock _ => cases hp

/-- A step inside a call goes on with the call. -/
theorem Goes.at {stands : Priority → Node → Job T → Prop} {φ : Atomic.Phase (Op T) (Ret T)} (goes : Goes s c c')
    (h : c.At stands φ) : c'.At stands φ := by
  have hsame : c'.pending = c.pending ∧ c'.adds = c.adds ∧ c'.pops = c.pops := by
    cases goes <;> exact ⟨rfl, rfl, rfl⟩
  cases h with
  | idle => cases goes
  | pending pending => exact .pending (hsame.1.trans pending)
  | adds adds => exact .adds (hsame.2.1.trans adds)
  | pops pops stood => exact .pops (hsame.2.2.trans pops) stood

variable [DecidableEq Tid]

theorem Checked.effect (h : Checked s) (hmax : s'.q.maxPrio = s.q.maxPrio) (he : Effect s l s') : Checked s' := by
  have become : ∀ {t q} {c : Pc T}, (∀ p, c.checked = some p → p ≤ s.q.maxPrio) → q.maxPrio = s.q.maxPrio →
      Checked (s.become t q c) := by
    intro t q c hc hq u p hu
    simp only [Sys.become, Function.update_apply] at hu ⊢
    rw [hq]
    split at hu
    · exact hc p hu
    · exact h u p hu
  cases he with
  | @call t op _ range =>
    refine become (fun p hp => ?_) rfl
    cases op <;> cases hp
    exact range _ rfl
  | @move t c c' pc goes =>
    refine become (fun p hp => ?_) rfl
    rcases goes.checked hp with hc | hp
    · exact h t p (pc ▸ hc)
    · exact hp
  | @gate t p pc _ =>
    refine become (fun p' hp => ?_) rfl
    cases hp
    exact h t p (by simp [pc, Pc.checked])
  | fail _ _ | callFail _ => exact h
  | insert _ | entry _ | flag _ _ | released _ _ _ | pop _ _ | take _ _ | purge _ _ | one _ | all _ =>
    exact become (fun p hp => by cases hp) hmax

variable [Fintype Tid] {a : Atomic.State Tid (AtomicQueue T) (Op T) (Ret T)}

/-- Every step of a thread is answered by steps of the atomic object that show the same. -/
theorem Linear.next (h : Linear s a) (hand : HandOver s) (locks : Locks s) (bounded : Bounded s) (checked : Checked s)
    (noOne : NoReleaseOne s) (hn : s.next l = some s') :
    ∃ a', Atomic.Shows (AtomicQueue.Effect s.q.maxPrio) a (s.observe l) a' ∧
      (s'.fault = none → Linear s' a') := by
  -- A call that takes effect with the step that returns.
  have returns : ∀ {t q ret obj} op, s.next (.step t) = some (s.become t q (.idle (some ret))) →
      (s.pc t).pending = some op → AtomicQueue.Effect s.q.maxPrio a.obj op ret obj →
      Linear (s.become t q (.idle (some ret))) ⟨obj, Function.update a.phase t .outside⟩ →
      ∃ a', Atomic.Shows (AtomicQueue.Effect s.q.maxPrio) a (s.observe (.step t)) a' ∧
        ((s.become t q (.idle (some ret))).fault = none → Linear (s.become t q (.idle (some ret))) a') := by
    intro t q ret obj op hn hop heffect hlinear
    refine ⟨_, ?_, fun _ => hlinear⟩
    rw [observe_step hn, become_pc]
    exact .effect_ret (h.called op hop) heffect
  cases next_effect hn with
  | @call t op idle _ =>
    refine ⟨_, .single (.call (h.outside idle)), fun _ => ?_⟩
    refine h.frame hand rfl rfl ?_ rfl h.released (.pending ?_)
    · cases hc : s.pc t <;> simp [hc, Pc.isIdle] at idle
      cases op <;> rfl
    · cases op <;> rfl
  | @move t c c' pc goes =>
    refine ⟨a, ?_, fun _ => ?_⟩
    · rw [observe_step hn]
      have hnone : ((s.goto t c').pc t).returned t = [] := by
        cases goes <;> simp [Sys.goto, Pc.returned]
      rw [hnone]
      exact .refl
    · have hframe := h.frame hand rfl rfl (by rw [pc]; cases goes <;> rfl) rfl h.released
        (goes.at (pc ▸ h.phase t))
      rwa [Function.update_eq_self] at hframe
  | @insert t job pc =>
    refine ⟨_, ?_, fun _ => h.insert hand pc⟩
    rw [observe_step hn, become_pc]
    exact .single (.effect (h.called (.enqueue job) (by simp [pc, Pc.pending])) ⟨bounded.inserts t job pc, rfl⟩)
  | @entry t job iter pc =>
    refine ⟨_, ?_, fun _ => h.entry hand pc⟩
    rw [observe_step hn, become_pc]
    exact .single (.ret (h.done_void (e := ⟨job, iter⟩) (by simp [pc, Pc.adds])))
  | @gate t p pc _ =>
    refine ⟨a, ?_, fun _ => ?_⟩
    · rw [observe_step hn, become_pc]
      exact .refl
    · have hframe := h.frame hand rfl rfl (c := .deqFlag p) (q := s.q.closeGate p) (by rw [pc]; rfl) rfl h.released
        (.pending rfl)
      rwa [← h.called (t := t) (.dequeue p) (by simp [pc, Pc.pending]), Function.update_eq_self] at hframe
  | flag pc flagged =>
    rw [noOne.flags] at flagged
    cases flagged
  | @released t p pc empty released =>
    have hp : p ≤ s.q.maxPrio := checked t p (by simp [pc, Pc.checked])
    have hnil : a.obj.jobs p = [] := by
      have hempty := h.isEmpty_iff p
      rw [empty] at hempty
      exact List.isEmpty_iff.mp hempty
    refine returns (.dequeue p) hn (by simp [pc, Pc.pending])
      ⟨hp, hnil, by rw [h.released, released], rfl⟩ ?_
    exact h.frame hand rfl rfl (by rw [pc]; rfl) rfl h.released .idle
  | @pop t p n q pc popped =>
    obtain ⟨job, obj, htakes, hlinear⟩ := h.pop hand pc popped
    have hp : p ≤ s.q.maxPrio := checked t p (by simp [pc, Pc.checked])
    refine ⟨_, ?_, fun _ => hlinear⟩
    rw [observe_step hn, become_pc]
    exact .single (.effect (h.called (.dequeue p) (by simp [pc, Pc.pending])) ⟨hp, htakes⟩)
  | @take t p n job q pc taken =>
    obtain ⟨hphase, hlinear⟩ := h.take hand locks pc taken
    refine ⟨_, ?_, fun _ => hlinear⟩
    rw [observe_step hn, become_pc]
    exact .single (.ret hphase)
  | @purge t id count q pc purged =>
    obtain ⟨hcount, hlinear⟩ := h.purge hand locks bounded pc purged
    exact returns (.purge id) hn (by simp [pc, Pc.pending]) ⟨trivial, rfl, hcount⟩ hlinear
  | @one t p pc => exact absurd pc (noOne.calls t p).2.2
  | @all t pc =>
    refine returns .releaseQueues hn (by simp [pc, Pc.pending]) ⟨trivial, rfl⟩ ?_
    exact h.frame hand rfl rfl (by rw [pc]; rfl) rfl rfl .idle
  | @fail t c f pc faults =>
    refine ⟨a, ?_, fun hf => by cases hf⟩
    rw [observe_step hn]
    have hnone : ((s.fail f).pc t).returned t = [] := by
      show (s.pc t).returned t = []
      rw [pc]
      cases faults <;> rfl
    rw [hnone]
    exact .refl
  | @callFail t p _ => exact ⟨_, .single (.call (h.outside (idle_of_call hn))), fun hf => by cases hf⟩

end Steps

variable [DecidableEq Tid] [Fintype Tid] {maxPriority : Priority} {xs : List (Sys Tid T × Label Tid T)} {s : Sys Tid T}

theorem checked_of_run (run : (system Tid T maxPriority).Run xs s) : Checked s := by
  induction run with
  | init => exact fun t p hp => by cases hp
  | step run hn ih =>
    have he := next_effect hn
    exact ih.effect ((bounded_of_run run).1.effect (handOver_of_run run) (locks_of_run run) he).2 he

theorem Linear.init : Linear (system Tid T maxPriority).init (.new .new) where
  jobs _ := .nil
  released := rfl
  phase _ := .idle

end Dans.Threads
