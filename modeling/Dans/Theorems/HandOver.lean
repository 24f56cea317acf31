import Dans.Theorems.ThreadSteps

/-! Lists and map stay in step between the two sections of a call: a thread takes the map lock before it
    gives up the queue lock, so the pending changes of the map are made in the order of the changes of
    the lists. -/

namespace Dans.Threads
open MultiQueue

variable {Tid T : Type}

/-! ### Pending operations -/

/-- The entry that an `Enqueue` past its list section has to put into the map. -/
def Pc.adds : Pc T → Option (Entry T)
  | enqMapLock job iter | enqMap job iter => some ⟨job, iter⟩
  | _ => none

/-- The node that a `Dequeue` past its list section has popped. -/
def Pc.pops : Pc T → Option (Priority × Node)
  | deqMapLock p n | deqMap p n => some (p, n)
  | _ => none

/-- Some pending `Enqueue` has to put in the entry. -/
def Sys.Added (s : Sys Tid T) (e : Entry T) : Prop := ∃ t, (s.pc t).adds = some e

/-- Some pending `Dequeue` has popped the node. -/
def Sys.Popped (s : Sys Tid T) (p : Priority) (n : Node) : Prop := ∃ t, (s.pc t).pops = some (p, n)

@[simp] theorem Pc.idle_adds (ret : Option (Ret T)) : (Pc.idle ret).adds = none := rfl
@[simp] theorem Pc.idle_pops (ret : Option (Ret T)) : (Pc.idle ret).pops = none := rfl

theorem Pc.shared_of_adds {c : Pc T} {e : Entry T} (h : c.adds = some e) : c.shared = true := by
  cases c <;> simp_all [Pc.adds, Pc.shared]

theorem Pc.shared_of_pops {c : Pc T} {x : Priority × Node} (h : c.pops = some x) : c.shared = true := by
  cases c <;> simp_all [Pc.pops, Pc.shared]

theorem Pc.adds_cases {c : Pc T} {e : Entry T} (h : c.adds = some e) :
    c = .enqMapLock e.job e.iter ∨ c = .enqMap e.job e.iter := by
  cases c <;> simp_all [Pc.adds] <;> simp [← h]

theorem Pc.pops_cases {c : Pc T} {p : Priority} {n : Node} (h : c.pops = some (p, n)) :
    c = .deqMapLock p n ∨ c = .deqMap p n := by
  cases c <;> simp_all [Pc.pops]

/-- Lists and map agree up to the pending operations, each pending change has one owner, and the owner of
    the map lock comes before the one that waits for it under the queue lock of the same priority. -/
structure HandOver (s : Sys Tid T) : Prop where
  linked : Linked s.q s.Added s.Popped
  addsOne : ∀ e, Exclusion.One (fun c : Pc T => c.adds = some e) s.pc
  popsOne : ∀ x, Exclusion.One (fun c : Pc T => c.pops = some x) s.pc
  own : ∀ t job iter, s.pc t = .enqMapLock job iter → (⟨iter, job.jobId⟩ : Node) ∈ s.q.priorityQs job.priority
  addsNext : ∀ t u job iter job' iter', s.pc t = .enqMap job iter → s.pc u = .enqMapLock job' iter' →
    job'.priority = job.priority → iter < iter'
  popsNext : ∀ t u p n n', s.pc t = .deqMap p n → s.pc u = .deqMapLock p n' → n.addr < n'.addr

namespace HandOver

variable {s s' : Sys Tid T} {t : Tid} {l : Label Tid T}

/-- The map section of an `Enqueue` comes before every other pending one of its priority. -/
theorem added_next (h : HandOver s) (locks : Locks s) {job : Job T} {iter : Nat} (pc : s.pc t = .enqMap job iter)
    {e : Entry T} (he : s.Added e) (hne : e ≠ ⟨job, iter⟩) (hp : e.job.priority = job.priority) : iter < e.iter := by
  obtain ⟨u, hu⟩ := he
  rcases Pc.adds_cases hu with hlock | hmap
  · exact h.addsNext t u _ _ _ _ pc hlock hp
  · have htu : t = u := locks.map t u (by simp [pc, Pc.mapLock]) (by simp [hmap, Pc.mapLock])
    rw [← htu, pc] at hmap
    cases e
    simp_all

/-- The map section of a `Dequeue` comes before every other pending one of its priority. -/
theorem popped_next (h : HandOver s) (locks : Locks s) {p : Priority} {n m : Node} (pc : s.pc t = .deqMap p n)
    (hm : s.Popped p m) (hne : m ≠ n) : n.addr < m.addr := by
  obtain ⟨u, hu⟩ := hm
  rcases Pc.pops_cases hu with hlock | hmap
  · exact h.popsNext t u p n m pc hlock
  · have htu : t = u := locks.map t u (by simp [pc, Pc.mapLock]) (by simp [hmap, Pc.mapLock])
    rw [← htu, pc] at hmap
    cases hmap
    exact absurd rfl hne

/-- When a `Dequeue` looks its node up, the `Enqueue` of that node has put its entry in. -/
theorem added_ne (h : HandOver s) (locks : Locks s) {p : Priority} {n : Node} (pc : s.pc t = .deqMap p n)
    {e : Entry T} (he : s.Added e) (hp : e.job.priority = p) : e.node ≠ n := by
  obtain ⟨u, hu⟩ := he
  rcases Pc.adds_cases hu with hlock | hmap
  · -- The `Enqueue` still holds the queue lock, so its node is in the list, behind the popped one.
    have hmem := h.own u _ _ hlock
    rw [hp] at hmem
    have hlt := h.linked.front p n ⟨t, by simp [pc, Pc.pops]⟩ _ hmem
    intro heq
    rw [← heq] at hlt
    exact lt_irrefl _ hlt
  · have htu : t = u := locks.map t u (by simp [pc, Pc.mapLock]) (by simp [hmap, Pc.mapLock])
    rw [← htu, pc] at hmap
    cases hmap

/-- The map section of a `Dequeue`: the entry of its node is found and taken. -/
theorem takeEntry (h : HandOver s) (locks : Locks s) {p : Priority} {n : Node} (pc : s.pc t = .deqMap p n) :
    ∃ e q', s.q.takeEntry p n.jobId = .ok (e.job, q') ∧ s.q.Has e ∧ e.job.priority = p ∧ e.node = n ∧
      Linked q' s.Added (fun p' m => s.Popped p' m ∧ ¬(p' = p ∧ m = n)) ∧
      (∀ i, q'.entries i = if i = n.jobId then (s.q.entries i).filter (fun x => x.iter != n.addr) else s.q.entries i) ∧
      q'.priorityQs = s.q.priorityQs :=
  h.linked.takeEntry ⟨t, by simp [pc, Pc.pops]⟩ (fun _ => h.popped_next locks pc) fun _ => h.added_ne locks pc

theorem added_fresh (h : HandOver s) {e : Entry T} (he : s.Added e) : e.iter < s.q.nextAddr :=
  h.linked.fresh _ _ (h.linked.node e (Or.inr he))

/-- While a thread holds the purge lock exclusively, no call is between its two sections. -/
theorem inStep (h : HandOver s) (locks : Locks s) (ht : (s.pc t).exclusive = true) : s.q.InStep := by
  refine h.linked.iff (fun e => ?_) fun p n => ?_
  · refine ⟨False.elim, ?_⟩
    rintro ⟨u, hu⟩
    simpa [locks.shared_of_exclusive ht u] using Pc.shared_of_adds hu
  · refine ⟨False.elim, ?_⟩
    rintro ⟨u, hu⟩
    simpa [locks.shared_of_exclusive ht u] using Pc.shared_of_pops hu

theorem purge_lists (h : HandOver s) (locks : Locks s) {id : JobId} {count : Nat} {q : MultiQueue T}
    (pc : s.pc t = .purgeBody id) (purged : s.q.purge id = .ok (count, q)) (p : Priority) :
    q.priorityQs p = (s.q.priorityQs p).filter fun n => n.jobId != id := by
  have hex : (s.pc t).exclusive = true := by simp [pc, Pc.exclusive]
  obtain ⟨q', hpurge, -, hlists, -⟩ := (h.inStep locks hex).purge id
  rw [hpurge] at purged
  cases purged
  exact hlists p

theorem inStep_of_quiet (h : HandOver s) (quiet : s.Quiet) : s.q.InStep := by
  refine h.linked.iff (fun e => ?_) fun p n => ?_
  · refine ⟨False.elim, ?_⟩
    rintro ⟨u, hu⟩
    have hidle := quiet u
    rcases Pc.adds_cases hu with hc | hc <;> simp [hc, Pc.isIdle] at hidle
  · refine ⟨False.elim, ?_⟩
    rintro ⟨u, hu⟩
    have hidle := quiet u
    rcases Pc.pops_cases hu with hc | hc <;> simp [hc, Pc.isIdle] at hidle

/-! ### Steps -/

variable {q : MultiQueue T} {c : Pc T}

theorem pending_iff (hadds : c.adds = (s.pc t).adds) (e : Entry T) :
    c.adds = some e ∨ s.Added e ∧ (s.pc t).adds ≠ some e ↔ s.Added e := by
  rw [hadds]
  by_cases ht : (s.pc t).adds = some e
  · exact ⟨fun _ => ⟨t, ht⟩, fun _ => Or.inl ht⟩
  · simp [ht]

theorem pending_pops_iff (hpops : c.pops = (s.pc t).pops) (p : Priority) (n : Node) :
    c.pops = some (p, n) ∨ s.Popped p n ∧ (s.pc t).pops ≠ some (p, n) ↔ s.Popped p n := by
  rw [hpops]
  by_cases ht : (s.pc t).pops = some (p, n)
  · exact ⟨fun _ => ⟨t, ht⟩, fun _ => Or.inl ht⟩
  · simp [ht]

variable [DecidableEq Tid]

theorem added_become (h : HandOver s) {e : Entry T} :
    (s.become t q c).Added e ↔ c.adds = some e ∨ s.Added e ∧ (s.pc t).adds ≠ some e :=
  (h.addsOne e).exists_update

theorem popped_become (h : HandOver s) {p : Priority} {n : Node} :
    (s.become t q c).Popped p n ↔ c.pops = some (p, n) ∨ s.Popped p n ∧ (s.pc t).pops ≠ some (p, n) :=
  (h.popsOne (p, n)).exists_update

theorem added_of_become (h : HandOver s) {e : Entry T} (hc : c.adds = none) (he : (s.become t q c).Added e) :
    s.Added e := by
  rw [h.added_become, hc] at he
  exact (he.resolve_left (by simp)).1

theorem popped_of_become (h : HandOver s) {p : Priority} {n : Node} (hc : c.pops = none)
    (hn : (s.become t q c).Popped p n) : s.Popped p n ∧ (s.pc t).pops ≠ some (p, n) := by
  rw [h.popped_become, hc] at hn
  exact hn.resolve_left (by simp)

/-- A step keeps the invariant if it keeps `Linked` for the operations pending after it, and what it makes
    pending is new and comes after what was pending at the same priority. -/
theorem become (h : HandOver s)
    (linked : Linked q (fun e => c.adds = some e ∨ s.Added e ∧ (s.pc t).adds ≠ some e)
      fun p n => c.pops = some (p, n) ∨ s.Popped p n ∧ (s.pc t).pops ≠ some (p, n))
    (adds : ∀ e, c.adds = some e → (s.pc t).adds = some e ∨ ¬s.Added e)
    (pops : ∀ p n, c.pops = some (p, n) → (s.pc t).pops = some (p, n) ∨ ¬s.Popped p n)
    (own : ∀ u, u ≠ t → ∀ job iter, s.pc u = .enqMapLock job iter →
      (⟨iter, job.jobId⟩ : Node) ∈ q.priorityQs job.priority)
    (ownSelf : ∀ job iter, c = .enqMapLock job iter → (⟨iter, job.jobId⟩ : Node) ∈ q.priorityQs job.priority)
    (addsMap : ∀ u, u ≠ t → ∀ job iter job' iter', c = .enqMap job iter → s.pc u = .enqMapLock job' iter' →
      job'.priority = job.priority → iter < iter')
    (addsLock : ∀ u job iter job' iter', c = .enqMapLock job' iter' → s.pc u = .enqMap job iter →
      job'.priority = job.priority → iter < iter')
    (popsMap : ∀ u, u ≠ t → ∀ p n n', c = .deqMap p n → s.pc u = .deqMapLock p n' → n.addr < n'.addr)
    (popsLock : ∀ u p n n', c = .deqMapLock p n' → s.pc u = .deqMap p n → n.addr < n'.addr) :
    HandOver (s.become t q c) where
  linked := linked.iff (fun _ => h.added_become) fun _ _ => h.popped_become
  addsOne e := (h.addsOne e).update fun hc => (adds e hc).imp_right not_exists.mp
  popsOne x := (h.popsOne x).update fun hc => (pops x.1 x.2 hc).imp_right not_exists.mp
  own u job iter hu := by
    simp only [Sys.become, Function.update_apply] at hu
    split at hu
    · exact ownSelf job iter hu
    · exact own u ‹_› job iter hu
  addsNext u v job iter job' iter' hu hv hp := by
    simp only [Sys.become, Function.update_apply] at hu hv
    split at hu <;> split at hv
    · rw [hu] at hv
      cases hv
    · exact addsMap v ‹_› job iter job' iter' hu hv hp
    · exact addsLock u job iter job' iter' hv hu hp
    · exact h.addsNext u v job iter job' iter' hu hv hp
  popsNext u v p n n' hu hv := by
    simp only [Sys.become, Function.update_apply] at hu hv
    split at hu <;> split at hv
    · rw [hu] at hv
      cases hv
    · exact popsMap v ‹_› p n n' hu hv
    · exact popsLock u p n n' hv hu
    · exact h.popsNext u v p n n' hu hv

/-- A step between points at which nothing is pending, and that leaves lists and map alone. -/
theorem frame (h : HandOver s) (hq : q.priorityQs = s.q.priorityQs) (hm : q.valueMapper = s.q.valueMapper)
    (hn : q.nextAddr = s.q.nextAddr) (hadds : (s.pc t).adds = none) (hpops : (s.pc t).pops = none)
    (hadds' : c.adds = none) (hpops' : c.pops = none) : HandOver (s.become t q c) := by
  refine h.become ((h.linked.congr hq hm hn).iff (pending_iff (hadds'.trans hadds.symm))
    (pending_pops_iff (hpops'.trans hpops.symm))) ?_ ?_ ?_ ?_ ?_ ?_ ?_ ?_
  · simp [hadds']
  · simp [hpops']
  · intro u _ job iter hu
    rw [hq]
    exact h.own u job iter hu
  all_goals
    intros
    subst c
    simp [Pc.adds, Pc.pops] at hadds' hpops'

theorem enqMapLock (h : HandOver s) (locks : Locks s) {job : Job T} {iter : Nat} (pc : s.pc t = .enqMapLock job iter) :
    HandOver (s.goto t (.enqMap job iter)) := by
  refine h.become (h.linked.iff (pending_iff (by simp [pc, Pc.adds])) (pending_pops_iff (by simp [pc, Pc.pops])))
    ?_ ?_ (fun u _ => h.own u) nofun ?_ nofun nofun nofun
  · simp [pc, Pc.adds]
  · simp [Pc.pops]
  · rintro u hut _ _ job' iter' ⟨⟩ hu hp
    have : u = t := locks.queue job.priority u t (by simp [hu, Pc.queueLock, hp]) (by simp [pc, Pc.queueLock])
    exact absurd this hut

theorem deqMapLock (h : HandOver s) (locks : Locks s) {p : Priority} {n : Node} (pc : s.pc t = .deqMapLock p n) :
    HandOver (s.goto t (.deqMap p n)) := by
  refine h.become (h.linked.iff (pending_iff (by simp [pc, Pc.adds])) (pending_pops_iff (by simp [pc, Pc.pops])))
    ?_ ?_ (fun u _ => h.own u) nofun nofun nofun ?_ nofun
  · simp [Pc.adds]
  · simp [pc, Pc.pops]
  · rintro u hut _ _ n' ⟨⟩ hu
    have : u = t := locks.queue p u t (by simp [hu, Pc.queueLock]) (by simp [pc, Pc.queueLock])
    exact absurd this hut

theorem insert (h : HandOver s) {job : Job T} (pc : s.pc t = .enqInsert job) :
    HandOver (s.become t (s.q.insertNode job) (.enqMapLock job s.q.nextAddr)) := by
  refine h.become ((h.linked.insertNode job).iff (fun e => ?_) (pending_pops_iff (by simp [pc, Pc.pops])))
    ?_ ?_ ?_ ?_ nofun ?_ nofun nofun
  · simp [pc, Pc.adds, eq_comm, or_comm]
  · rintro e ⟨⟩
    exact Or.inr fun he => lt_irrefl _ (h.added_fresh he)
  · simp [Pc.pops]
  · intro u _ job' iter hu
    have := h.own u job' iter hu
    rw [insertNode_priorityQs, Function.update_apply]
    split
    · next hp =>
      rw [hp] at this
      exact List.mem_append_left _ this
    · exact this
  · rintro _ _ ⟨⟩
    simp [insertNode_priorityQs]
  · rintro u job' iter _ _ ⟨⟩ hu _
    exact h.added_fresh (e := ⟨job', iter⟩) ⟨u, by simp [hu, Pc.adds]⟩

theorem entry (h : HandOver s) (locks : Locks s) {job : Job T} {iter : Nat} (pc : s.pc t = .enqMap job iter)
    {ret : Option (Ret T)} : HandOver (s.become t (s.q.insertEntry job iter) (.idle ret)) := by
  have linked := h.linked.insertEntry ⟨t, by simp [pc, Pc.adds]⟩ fun e => h.added_next locks pc
  refine h.become (linked.iff (fun e => ?_) (pending_pops_iff (by simp [pc, Pc.pops]))) nofun nofun
    (fun u _ => ?_) nofun nofun nofun nofun nofun
  · simp [pc, Pc.adds, eq_comm]
  · rw [insertEntry_priorityQs]
    exact h.own u

theorem pop (h : HandOver s) (locks : Locks s) {p : Priority} {n : Node} (pc : s.pc t = .deqPop p)
    (popped : s.q.popNode p = .ok (n, q)) : HandOver (s.become t q (.deqMapLock p n)) := by
  obtain ⟨rest, hlist, hlists, -⟩ := popNode_ok popped
  have hfront : ∀ m, s.Popped p m → m.addr < n.addr := fun m hm => h.linked.front p m hm n (by simp [hlist])
  refine h.become ((h.linked.popNode popped).iff (pending_iff (by simp [pc, Pc.adds])) fun p' m => ?_)
    nofun ?_ ?_ nofun nofun nofun nofun ?_
  · simp [pc, Pc.pops, eq_comm, or_comm]
  · rintro _ _ ⟨⟩
    exact Or.inr fun hn => lt_irrefl _ (hfront n hn)
  · intro u hut job iter hu
    have hp : job.priority ≠ p := fun hp =>
      hut (locks.queue p u t (by simp [hu, Pc.queueLock, hp]) (by simp [pc, Pc.queueLock]))
    rw [hlists, Function.update_of_ne hp]
    exact h.own u job iter hu
  · rintro u _ m _ ⟨⟩ hu
    exact hfront m ⟨u, by simp [hu, Pc.pops]⟩

theorem take (h : HandOver s) (locks : Locks s) {p : Priority} {n : Node} {job : Job T} (pc : s.pc t = .deqMap p n)
    (taken : s.q.takeEntry p n.jobId = .ok (job, q)) {ret : Option (Ret T)} : HandOver (s.become t q (.idle ret)) := by
  obtain ⟨e, q', htake, -, -, -, linked, -, hlists⟩ := h.takeEntry locks pc
  rw [htake] at taken
  cases taken
  refine h.become (linked.iff (pending_iff (by simp [pc, Pc.adds])) fun p' m => ?_) nofun nofun
    (fun u _ => ?_) nofun nofun nofun nofun nofun
  · simp [pc, Pc.pops, eq_comm]
  · rw [hlists]
    exact h.own u

theorem purge (h : HandOver s) (locks : Locks s) {id : JobId} {count : Nat} (pc : s.pc t = .purgeBody id)
    (purged : s.q.purge id = .ok (count, q)) {ret : Option (Ret T)} : HandOver (s.become t q (.idle ret)) := by
  have hex : (s.pc t).exclusive = true := by simp [pc, Pc.exclusive]
  have hadds : ∀ u e, (s.pc u).adds ≠ some e := fun u e hu => by
    simpa [locks.shared_of_exclusive hex u] using Pc.shared_of_adds hu
  have hpops : ∀ u x, (s.pc u).pops ≠ some x := fun u e hu => by
    simpa [locks.shared_of_exclusive hex u] using Pc.shared_of_pops hu
  obtain ⟨q', hpurge, linked, -⟩ := (h.inStep locks hex).purge id
  rw [hpurge] at purged
  cases purged
  refine h.become (linked.iff (fun e => ?_) fun p n => ?_) (by simp [Pc.adds]) (by simp [Pc.pops]) ?_ (by simp) (by simp)
    (by simp) (by simp) (by simp)
  · simp [Sys.Added, hadds]
  · simp [Sys.Popped, hpops]
  · intro u _ job iter hu
    exact absurd (by simp [hu, Pc.adds]) (hadds u ⟨job, iter⟩)

theorem effect (h : HandOver s) (locks : Locks s) (he : Effect s l s') : HandOver s' := by
  cases he with
  | @call t op idle _ =>
    refine h.frame rfl rfl rfl ?_ ?_ ?_ ?_
    · cases hc : s.pc t <;> simp_all [Pc.isIdle, Pc.adds]
    · cases hc : s.pc t <;> simp_all [Pc.isIdle, Pc.pops]
    · cases op <;> rfl
    · cases op <;> rfl
  | @move t _ _ pc goes =>
    cases goes with
    | enqMapLock _ => exact h.enqMapLock locks pc
    | deqMapLock _ => exact h.deqMapLock locks pc
    | _ => exact h.frame rfl rfl rfl (by simp [pc, Pc.adds]) (by simp [pc, Pc.pops]) rfl rfl
  | insert pc => exact h.insert pc
  | entry pc => exact h.entry locks pc
  | pop pc popped => exact h.pop locks pc popped
  | take pc taken => exact h.take locks pc taken
  | purge pc purged => exact h.purge locks pc purged
  | fail _ _ | callFail _ => exact ⟨h.linked, h.addsOne, h.popsOne, h.own, h.addsNext, h.popsNext⟩
  | one pc => exact h.frame (by simp) (by simp) (by simp) (by simp [pc, Pc.adds]) (by simp [pc, Pc.pops]) rfl rfl
  | gate pc _ | flag pc _ | released pc _ _ | all pc =>
    exact h.frame rfl rfl rfl (by simp [pc, Pc.adds]) (by simp [pc, Pc.pops]) rfl rfl

end HandOver

variable [DecidableEq Tid] [Fintype Tid] {s : Sys Tid T}

theorem HandOver.init {maxPriority : Priority} : HandOver (system Tid T maxPriority).init where
  linked := Linked.new.iff (fun _ => by simp [Sys.Added, system, Pc.adds]) fun _ _ => by simp [Sys.Popped, system, Pc.pops]
  addsOne _ := by simp [Exclusion.One, system, Pc.adds]
  popsOne _ := by simp [Exclusion.One, system, Pc.pops]
  own := nofun
  addsNext := nofun
  popsNext := nofun

theorem handOver_of_run {maxPriority : Priority} {xs : List (Sys Tid T × Label Tid T)}
    (run : (system Tid T maxPriority).Run xs s) : HandOver s := by
  induction run with
  | init => exact .init
  | step run hn ih => exact ih.effect (locks_of_run run) (next_effect hn)

end Dans.Threads
