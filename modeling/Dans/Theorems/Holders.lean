import Dans.Theorems.JobLives

/-! Who has a job. Until a scheduling thread takes it from the queue nobody else has a job, and from then on somebody who
    comes to it comes from somebody who has it: a purge destroys only jobs that nobody else has, and no job is used after
    it was destroyed. -/

namespace Dans.ProxyJobs
open Tally

variable {S W : Type}

/-! ### Places before and after a step -/

/-- What is at a place. -/
def Sys.Has (s : Sys S W) : Place → Prop
  | .queued j => j ∈ s.queue
  | .sched c => ∃ t, s.sched t = c
  | .armed cb => cb ∈ s.epoll
  | .fetched cb => cb ∈ s.batch
  | .running cb => s.loop.running? = some cb
  | .task task => task ∈ s.tasks
  | .work c => ∃ w, s.work w = c

/-- A step takes from places of the state before it, and what is at a place after it was there or is put there. -/
structure Moves (s s' : Sys S W) (old new : List Place) : Prop where
  here : ∀ p ∈ old, s.Has p
  live : ∀ cb, .fetched cb ∈ old → s.freed cb.id = false := by simp
  queue : ∀ j ∈ s'.queue, j ∈ s.queue ∨ .queued j ∈ new := by exact fun _ h => Or.inl h
  sched : ∀ t, s.Has (.sched (s'.sched t)) ∨ .sched (s'.sched t) ∈ new := by exact fun t => Or.inl ⟨t, rfl⟩
  epoll : ∀ cb ∈ s'.epoll, cb ∈ s.epoll ∨ .armed cb ∈ new := by exact fun _ h => Or.inl h
  batch : ∀ cb ∈ s'.batch, cb ∈ s.batch ∨ .fetched cb ∈ new := by exact fun _ h => Or.inl h
  loop : ∀ cb, s'.loop.running? = some cb → s.loop.running? = some cb ∨ .running cb ∈ new := by exact fun _ h => Or.inl h
  tasks : ∀ task ∈ s'.tasks, task ∈ s.tasks ∨ .task task ∈ new := by exact fun _ h => Or.inl h
  work : ∀ w, s.Has (.work (s'.work w)) ∨ .work (s'.work w) ∈ new := by exact fun w => Or.inl ⟨w, rfl⟩

variable {s s' : Sys S W} {l : Label S W} {old new : List Place} {j : Nat}

theorem Moves.has (h : Moves s s' old new) {p : Place} (hp : s'.Has p) : s.Has p ∨ p ∈ new := by
  cases p with
  | queued j => exact h.queue j hp
  | sched c =>
    obtain ⟨t, rfl⟩ := hp
    exact h.sched t
  | armed cb => exact h.epoll cb hp
  | fetched cb => exact h.batch cb hp
  | running cb => exact h.loop cb hp
  | task task => exact h.tasks task hp
  | work c =>
    obtain ⟨w, rfl⟩ := hp
    exact h.work w

variable [Fintype S] [Fintype W] [DecidableEq S] [DecidableEq W]

theorem Step.moves (hs : Step s l s') :
    ∃ old new, Turn s.heap.length s.jobCount old new s'.heap.length s'.jobCount ∧ Moves s s' old new := by
  have hsched : ∀ {t : S} {c : Sched} {ps : List Place}, .sched c ∈ ps →
      ∀ t', s.Has (.sched (Function.update s.sched t c t')) ∨ .sched (Function.update s.sched t c t') ∈ ps := by
    intro t c ps hc t'
    by_cases heq : t' = t
    · rw [heq, Function.update_self]
      exact Or.inr hc
    · rw [Function.update_of_ne heq]
      exact Or.inl ⟨t', rfl⟩
  have hwork : ∀ {w : W} {c : Work} {ps : List Place}, .work c ∈ ps →
      ∀ w', s.Has (.work (Function.update s.work w c w')) ∨ .work (Function.update s.work w c w') ∈ ps := by
    intro w c ps hc w'
    by_cases heq : w' = w
    · rw [heq, Function.update_self]
      exact Or.inr hc
    · rw [Function.update_of_ne heq]
      exact Or.inl ⟨w', rfl⟩
  -- The reactor takes a callback from the batch.
  have hhead : ∀ {cb : Callback} {rest : List Callback}, s.batch = cb :: rest → ∀ p ∈ [Place.fetched cb], s.Has p := by
    intro cb rest hbatch p hp
    rw [List.mem_singleton.mp hp, Sys.Has, hbatch]
    exact List.mem_cons_self
  have hrest : ∀ {cb : Callback} {rest : List Callback} {ps : List Place}, s.batch = cb :: rest →
      ∀ cb' ∈ rest, cb' ∈ s.batch ∨ .fetched cb' ∈ ps :=
    fun hbatch cb' hcb => Or.inl (hbatch ▸ List.mem_cons_of_mem _ hcb)
  have hlive : ∀ {id : Nat} {c : Closure}, s.freed id = false →
      ∀ cb, .fetched cb ∈ [Place.fetched ⟨id, c⟩] → s.freed cb.id = false := fun hlive cb hcb => by
    cases List.mem_singleton.mp hcb
    exact hlive
  have harmed : ∀ {c : Option Closure} {ps : List Place}, (∀ c', c = some c' → .armed ⟨s.heap.length, c'⟩ ∈ ps) →
      ∀ cb ∈ s.armed c, cb ∈ s.epoll ∨ .armed cb ∈ ps := by
    intro c ps hc cb h
    rcases mem_armed h with ⟨hmem, -⟩ | ⟨hsome, hid⟩
    · exact Or.inl hmem
    · have hmem := hc cb.closure hsome
      rw [← hid] at hmem
      exact Or.inr hmem
  have hsome : ∀ {c : Closure} {ps : List Place}, .armed ⟨s.heap.length, c⟩ ∈ ps →
      ∀ c', some c = some c' → .armed ⟨s.heap.length, c'⟩ ∈ ps := fun hmem c' heq => Option.some.inj heq ▸ hmem
  have hregister : ∀ {c : Option Closure} {p : Place}, ∀ c', c = some c' →
      .armed ⟨s.heap.length, c'⟩ ∈ p :: c.toList.map fun c => .armed ⟨s.heap.length, c⟩ := by
    rintro _ p c' rfl
    exact List.mem_cons_of_mem _ List.mem_cons_self
  have hrunning : ∀ {cb : Callback} {ps : List Place}, .running cb ∈ ps →
      ∀ cb', some cb = some cb' → s.loop.running? = some cb' ∨ .running cb' ∈ ps :=
    fun hmem cb' heq => Or.inr (Option.some.inj heq ▸ hmem)
  have htask : ∀ {task : Task} {ps : List Place}, .task task ∈ ps →
      ∀ task' ∈ s.tasks ++ [task], task' ∈ s.tasks ∨ .task task' ∈ ps := by
    intro task ps hmem task' h
    rcases List.mem_append.mp h with h | h
    · exact Or.inl h
    · exact Or.inr (List.mem_singleton.mp h ▸ hmem)
  cases hs with
  | fault _ | late _ | clearSizes | report => exact ⟨_, _, .stay, { here := List.forall_mem_nil _ }⟩
  | accepted loop =>
    exact ⟨_, _, .stay, { here := List.forall_mem_nil _, loop := fun cb h => Or.inl (by rw [loop]; exact h) }⟩
  | @wait sockets cbs epoll idle perm =>
    refine ⟨_, _, .fetch cbs, { here := fun p hp => ?_, epoll := fun cb h => ?_, batch := fun cb h => ?_ }⟩
    · obtain ⟨cb, hcb, rfl⟩ := List.mem_map.mp hp
      exact perm.subset (List.mem_append_left _ hcb)
    · exact Or.inl (perm.subset (List.mem_append_right _ h))
    · exact (List.mem_append.mp h).imp_right fun hmem => List.mem_map_of_mem hmem
  | @serve id p rest inp out err loop batch live =>
    exact ⟨_, _, by simpa using Turn.serve id p,
      { here := hhead batch, live := hlive live, batch := hrest batch, loop := hrunning List.mem_cons_self
        epoll := harmed (hsome (List.mem_cons_of_mem _ List.mem_cons_self)) }⟩
  | @closing id p rest inp out err loop batch live =>
    exact ⟨_, _, @Turn.quiet _ _ ⟨id, .serve p⟩ (Or.inl ⟨p, rfl⟩),
      { here := hhead batch, live := hlive live, batch := hrest batch, loop := hrunning List.mem_cons_self }⟩
  | @first id j rest inp out err loop batch live =>
    exact ⟨_, _, @Turn.quiet _ _ ⟨id, .first j⟩ (Or.inr ⟨j, rfl⟩),
      { here := hhead batch, live := hlive live, batch := hrest batch, loop := hrunning List.mem_cons_self }⟩
  | @cliClosed id j rest inp out err ready loop batch live =>
    exact ⟨_, _, .cliClosed id j ready,
      { here := hhead batch, live := hlive live, batch := hrest batch, loop := hrunning List.mem_cons_self
        tasks := htask (List.mem_cons_of_mem _ List.mem_cons_self) }⟩
  | @connected id j soc rest inp out err ready loop batch live =>
    exact ⟨_, _, .connected id j soc ready,
      { here := hhead batch, live := hlive live, batch := hrest batch, loop := hrunning List.mem_cons_self
        tasks := htask (List.mem_cons_of_mem _ List.mem_cons_self) }⟩
  | @monitored id j side rest inp out err ready loop batch live =>
    exact ⟨_, _, .monitored id j side ready,
      { here := hhead batch, live := hlive live, batch := hrest batch, loop := hrunning List.mem_cons_self
        tasks := htask (List.mem_cons_of_mem _ List.mem_cons_self) }⟩
  | accept loop =>
    refine ⟨_, _, by simpa using Turn.accept,
      { here := List.forall_mem_nil _, queue := fun j h => ?_
        epoll := harmed (hsome (List.mem_cons_of_mem _ List.mem_cons_self)) }⟩
    rcases List.mem_append.mp h with h | h
    · exact Or.inl h
    · rw [List.mem_singleton.mp h]
      exact Or.inr List.mem_cons_self
  | @finish cb loop live =>
    refine ⟨_, _, .finish cb, { here := fun p hp => ?_, loop := fun cb h => by cases h }⟩
    rw [List.mem_singleton.mp hp]
    exact congrArg Loop.running? loop
  | @purge j rest purges mem =>
    refine ⟨_, _, .purge j, { here := fun p hp => ?_, queue := fun j h => Or.inl (List.mem_of_mem_erase h)
                              epoll := fun cb h => Or.inl (List.mem_filter.mp h).1 }⟩
    rw [List.mem_singleton.mp hp]
    exact mem
  | destroy _ _ _ _ _ =>
    exact ⟨_, _, .stay, { here := List.forall_mem_nil _, epoll := fun cb h => Or.inl (List.mem_filter.mp h).1 }⟩
  | @take t j idle mem =>
    refine ⟨_, _, .take j, { here := fun p hp => ?_, queue := fun j h => Or.inl (List.mem_of_mem_erase h)
                             sched := hsched List.mem_cons_self }⟩
    rcases List.mem_pair.mp hp with rfl | rfl
    · exact mem
    · exact ⟨t, idle⟩
  | @schedule t j a job acts live =>
    refine ⟨_, _, by simpa [Sys.perform] using Turn.schedule acts,
      { here := fun p hp => ?_, sched := hsched List.mem_cons_self, epoll := harmed hregister, tasks := fun task h => ?_ }⟩
    · rw [List.mem_singleton.mp hp]
      exact ⟨t, rfl⟩
    · exact Or.inl (by simpa [Sys.perform, acts.submit] using h)
  | @connect t j soc sched =>
    refine ⟨_, _, by simpa using Turn.connect j soc,
      { here := fun p hp => ?_, sched := hsched List.mem_cons_self
        epoll := harmed (hsome (List.mem_cons_of_mem _ List.mem_cons_self)) }⟩
    rw [List.mem_singleton.mp hp]
    exact ⟨t, sched⟩
  | @connectNow t j soc sched =>
    refine ⟨_, _, .connectNow j soc ⟨false, false, 0⟩,
      { here := fun p hp => ?_, sched := hsched List.mem_cons_self
        tasks := htask (List.mem_cons_of_mem _ List.mem_cons_self) }⟩
    rw [List.mem_singleton.mp hp]
    exact ⟨t, sched⟩
  | @start w task rest idle tasks =>
    refine ⟨_, _, .start task, { here := fun p hp => ?_, work := hwork List.mem_cons_self
                                 tasks := fun task h => Or.inl (tasks ▸ List.mem_cons_of_mem _ h) }⟩
    rcases List.mem_pair.mp hp with rfl | rfl
    · rw [Sys.Has, tasks]
      exact List.mem_cons_self
    · exact ⟨w, idle⟩
  | @work w j a job acts live =>
    refine ⟨_, _, by simpa [Sys.perform] using Turn.work acts,
      { here := fun p hp => ?_, work := hwork List.mem_cons_self, epoll := harmed hregister, tasks := fun task h => ?_ }⟩
    · rw [List.mem_singleton.mp hp]
      exact ⟨w, rfl⟩
    · exact Or.inl (by simpa [Sys.perform, acts.submit] using h)
  | @pipe w j side reads sends m p work pipe =>
    refine ⟨_, _, .pipe j side (Work.piped_cases j side ((s.jobs j).soc side) p.ret),
      { here := fun p hp => ?_, work := hwork List.mem_cons_self }⟩
    rw [List.mem_singleton.mp hp]
    exact ⟨w, work⟩

/-! ### Holders -/

/-- The job that somebody at the place holds a pointer to. -/
def Place.holds : Place → Option Nat
  | queued _ => none
  | sched c => c.job
  | armed cb | fetched cb | running cb => cb.closure.holds
  | task t => some t.job
  | work c => c.job

def Place.callback? : Place → Option Callback
  | armed cb | fetched cb | running cb => some cb
  | queued _ | sched _ | task _ | work _ => none

/-- Somebody has the job; what a deleted callback holds does not count. -/
def Sys.Taken (s : Sys S W) (j : Nat) : Prop :=
  ∃ p, s.Has p ∧ p.holds = some j ∧ ∀ cb, p.callback? = some cb → s.freed cb.id = false

/-- The queue has the job, or somebody holds a pointer to it. -/
def Sys.Owned (s : Sys S W) (j : Nat) : Prop := j ∈ s.queue ∨ s.Alive j

omit [Fintype S] [Fintype W] [DecidableEq S] [DecidableEq W] in
theorem owned_of_reaches (known : Known s) (h : s.Reaches j) : s.Owned j := by
  by_contra hnot
  obtain ⟨hqueue, hdead⟩ := not_or.mp hnot
  exact not_reaches_of_dead known hqueue hdead h

omit [Fintype S] [Fintype W] [DecidableEq S] [DecidableEq W] in
theorem alive_of_taken (known : Known s) (h : s.Taken j) : s.Alive j := by
  have callback : ∀ {cb : Callback}, s.Held cb → cb.closure.holds = some j → s.freed cb.id = false → s.Alive j := by
    intro cb hcb hj hlive
    have hclosure := known.held cb hcb
    exact Or.inl ⟨cb.id, (List.getElem?_eq_some_iff.mp hclosure).1, hlive, by rw [hclosure]; exact hj⟩
  obtain ⟨p, hp, hj, hlive⟩ := h
  cases p with
  | queued _ => cases hj
  | sched c =>
    obtain ⟨t, rfl⟩ := hp
    exact Or.inr (Or.inr (Or.inl ⟨t, hj⟩))
  | armed cb => exact callback (Or.inl hp) hj (hlive cb rfl)
  | fetched cb => exact callback (Or.inr (Or.inl hp)) hj (hlive cb rfl)
  | running cb => exact callback (Or.inr (Or.inr hp)) hj (hlive cb rfl)
  | task task => exact Or.inr (Or.inl ⟨task, hp, Option.some.inj hj⟩)
  | work c =>
    obtain ⟨w, rfl⟩ := hp
    exact Or.inr (Or.inr (Or.inr ⟨w, hj⟩))

omit [Fintype S] [Fintype W] [DecidableEq S] [DecidableEq W] in
/-- Whoever is put somewhere with a job has it from a place that is taken from, or from the queue. -/
theorem Turn.holds {n k n' k' : Nat} (h : Turn n k old new n' k') {p : Place} (hp : p ∈ new) (hj : p.holds = some j) :
    (∃ q ∈ old, q.holds = some j ∧ (q.callback? = p.callback? ∨ q.callback? = none ∨ ∃ cb, q = .fetched cb)) ∨
      p = .sched (.scheduled j) := by
  have hone : ∀ {q : Place}, q.holds = some j → (q.callback? = p.callback? ∨ q.callback? = none ∨ ∃ cb, q = .fetched cb) →
      (∃ q' ∈ [q], q'.holds = some j ∧ (q'.callback? = p.callback? ∨ q'.callback? = none ∨ ∃ cb, q' = .fetched cb)) ∨
        p = .sched (.scheduled j) := fun hq hcb => Or.inl ⟨_, List.mem_singleton_self _, hq, hcb⟩
  cases h with
  | stay | finish _ | purge _ => cases hp
  | fetch cbs =>
    obtain ⟨cb, hcb, rfl⟩ := List.mem_map.mp hp
    exact Or.inl ⟨.armed cb, List.mem_map_of_mem hcb, hj, Or.inl rfl⟩
  | serve _ _ | accept => rcases List.mem_pair.mp hp with rfl | rfl <;> cases hj
  | quiet _ =>
    cases List.mem_singleton.mp hp
    exact hone hj (Or.inl rfl)
  | cliClosed _ _ _ | connected _ _ _ _ | monitored _ _ _ _ =>
    rcases List.mem_pair.mp hp with rfl | rfl <;> exact hone hj (Or.inr (Or.inr ⟨_, rfl⟩))
  | take j' =>
    cases List.mem_singleton.mp hp
    cases hj
    exact Or.inr rfl
  | schedule acts =>
    refine hone ?_ (Or.inr (Or.inl rfl))
    rcases List.mem_cons.mp hp with rfl | hp
    · exact acts.job hj
    · obtain ⟨c, hc, rfl⟩ := List.mem_map.mp hp
      cases acts with
      | monitor =>
        cases List.mem_singleton.mp hc
        exact hj
      | assign | test _ | delete | clear => cases hc
  | connect _ _ | connectNow _ _ _ =>
    rcases List.mem_pair.mp hp with rfl | rfl <;> exact hone hj (Or.inr (Or.inl rfl))
  | start task =>
    cases List.mem_singleton.mp hp
    refine Or.inl ⟨.task task, List.mem_cons_self, ?_, Or.inr (Or.inl rfl)⟩
    cases task <;> exact hj
  | work acts =>
    refine hone ?_ (Or.inr (Or.inl rfl))
    rcases List.mem_cons.mp hp with rfl | hp
    · exact acts.job hj
    · obtain ⟨c, hc, rfl⟩ := List.mem_map.mp hp
      cases acts with
      | monitorIn | monitorOut | rearm =>
        cases List.mem_singleton.mp hc
        exact hj
      | _ => cases hc
  | pipe j' side next =>
    cases List.mem_singleton.mp hp
    refine hone ?_ (Or.inr (Or.inl rfl))
    rcases next with rfl | rfl | ⟨units, rfl⟩
    · exact hj
    · cases hj
    · exact hj

/-- Somebody has a job after a step who had it before, or a scheduling thread has just taken it. -/
theorem Step.taken (hs : Step s l s') (h : s'.Taken j) : s.Taken j ∨ ∃ t, s'.sched t = .scheduled j := by
  obtain ⟨p, hp, hj, hlive⟩ := h
  obtain ⟨old, new, hturn, hmoves⟩ := hs.moves
  have hbefore : ∀ cb, p.callback? = some cb → s.freed cb.id = false := fun cb hcb => by
    rw [← Bool.not_eq_true]
    intro hfreed
    have hlive := hlive cb hcb
    rw [hs.freed_mono hfreed] at hlive
    cases hlive
  rcases hmoves.has hp with hp | hnew
  · exact Or.inl ⟨p, hp, hj, hbefore⟩
  · rcases hturn.holds hnew hj with ⟨q, hq, hqj, hsame | hnone | ⟨cb, rfl⟩⟩ | rfl
    · exact Or.inl ⟨q, hmoves.here q hq, hqj, by rwa [hsame]⟩
    · exact Or.inl ⟨q, hmoves.here q hq, hqj, by simp [hnone]⟩
    · exact Or.inl ⟨.fetched cb, hmoves.here _ hq, hqj, fun cb' heq => Option.some.inj heq ▸ hmoves.live cb hq⟩
    · exact Or.inr hp

/-- A step makes at most one callback. -/
theorem Step.heap_cases (hs : Step s l s') : s'.heap = s.heap ∨ ∃ c, s'.heap = s.heap ++ [c] := by
  have made : ∀ c? : Option Closure, s.heap ++ c?.toList = s.heap ∨ ∃ c, s.heap ++ c?.toList = s.heap ++ [c] := by
    intro c?
    cases c? with
    | none => exact Or.inl (List.append_nil _)
    | some c => exact Or.inr ⟨c, rfl⟩
  cases hs with
  | serve _ _ _ | accept _ | connect _ => exact made (some _)
  | schedule _ _ _ | work _ _ _ => exact made _
  | _ => exact Or.inl rfl

/-- A callback that was not deleted was there before, also where its registration was replaced since, or it is made for a
    thread that has the job. -/
theorem Step.callback (hs : Step s l s') (h : s'.heldByCallback j) : s.Alive j := by
  obtain ⟨id, -, hlive, hj⟩ := h
  have hbefore : s.freed id = false := by
    rw [← Bool.not_eq_true]
    intro hfreed
    rw [hs.freed_mono hfreed] at hlive
    cases hlive
  have old : s.heap[id]?.bind Closure.holds = some j → s.Alive j := fun hold => by
    obtain ⟨c, hc, -⟩ := Option.bind_eq_some_iff.mp hold
    exact Or.inl ⟨id, (List.getElem?_eq_some_iff.mp hc).1, hbefore, hold⟩
  rcases hs.heap_cases with hheap | ⟨c, hheap⟩
  · exact old (hheap ▸ hj)
  · rcases Nat.lt_trichotomy id s.heap.length with hlt | rfl | hgt
    · rw [hheap, List.getElem?_append_left hlt] at hj
      exact old hj
    · rw [hheap, List.getElem?_concat_length] at hj
      rcases hs.made hheap hj with hsched | hwork
      · exact Or.inr (Or.inr (Or.inl hsched))
      · exact Or.inr (Or.inr (Or.inr hwork))
    · rw [hheap, List.getElem?_eq_none (by rw [List.length_append, List.length_singleton]; omega)] at hj
      cases hj

/-- Somebody holds a job after a step whom it was held by before, or a scheduling thread has just taken it. -/
theorem Step.alive (hs : Step s l s') (known : Known s) (h : s'.Alive j) :
    s.Alive j ∨ ∃ t, s'.sched t = .scheduled j := by
  have place : ∀ {p : Place}, s'.Has p → p.holds = some j → p.callback? = none →
      s.Alive j ∨ ∃ t, s'.sched t = .scheduled j := fun hp hj hnone =>
    (hs.taken ⟨_, hp, hj, fun cb hcb => by rw [hnone] at hcb; cases hcb⟩).imp_left (alive_of_taken known)
  rcases h with hcb | ⟨task, htask, hj⟩ | ⟨t, ht⟩ | ⟨w, hw⟩
  · exact Or.inl (hs.callback hcb)
  · exact place (p := .task task) htask (congrArg some hj) rfl
  · exact place (p := .sched (s'.sched t)) ⟨t, rfl⟩ ht rfl
  · exact place (p := .work (s'.work w)) ⟨w, rfl⟩ hw rfl

/-- A job is owned by somebody who had it before, or it is new. -/
theorem Step.owned (hs : Step s l s') (known : Known s) (h : s'.Owned j) :
    s.Owned j ∨ j = s.jobCount ∧ s'.jobCount = s.jobCount + 1 := by
  have reached : s'.Reaches j → s.Owned j ∨ j = s.jobCount ∧ s'.jobCount = s.jobCount + 1 :=
    fun h => (hs.reaches h).imp_left (owned_of_reaches known)
  rcases h with hqueue | halive
  · exact reached (Or.inl hqueue)
  · rcases hs.alive known halive with hbefore | ⟨t, ht⟩
    · exact Or.inl (Or.inr hbefore)
    · exact reached (Or.inr (Or.inl ⟨t, by rw [ht]; rfl⟩))

/-- A job is destroyed by a purge that finds it in the queue, or when nobody has it. -/
theorem Step.destroyed (hs : Step s l s') (h : (s'.jobs j).destroyed = true) : (s.jobs j).destroyed = true ∨
    (j ∈ s.queue ∧ s'.queue = s.queue.erase j ∧ s'.sched = s.sched) ∨
    j ∉ s.queue ∧ ¬s.Alive j ∧ s'.jobCount = s.jobCount := by
  have hkeep : ∀ {j' : Nat} {r : PipeJob}, (Function.update s.jobs j' r j).destroyed = true →
      r.destroyed = (s.jobs j').destroyed → (s.jobs j).destroyed = true :=
    fun h hr => (field_update (·.destroyed) hr).symm.trans h
  have hclose : ∀ {j' : Nat}, ((s.close j').jobs j).destroyed = true → (s.jobs j).destroyed = true ∨ j = j' := by
    intro j' h
    by_cases heq : j = j'
    · exact Or.inr heq
    · simp only [Sys.close, Sys.setJob, Function.update_of_ne heq] at h
      exact Or.inl h
  cases hs with
  | first _ _ _ | cliClosed _ _ _ | pipe _ _ => exact Or.inl (hkeep h rfl)
  | accept _ =>
    dsimp only at h
    rw [Function.update_apply] at h
    split at h
    · cases h
    · exact Or.inl h
  | purge _ mem =>
    rcases hclose h with h | rfl
    · exact Or.inl h
    · exact Or.inr (Or.inl ⟨mem, rfl, rfl⟩)
  | destroy _ queue _ dead _ =>
    rcases hclose h with h | rfl
    · exact Or.inl h
    · exact Or.inr (Or.inr ⟨queue, dead, rfl⟩)
  | @schedule t _ _ _ acts _ =>
    refine Or.inl (hkeep h ?_)
    generalize s.sched t = c at acts
    cases acts <;> rfl
  | @work w _ _ _ acts _ =>
    refine Or.inl (hkeep h ?_)
    generalize s.work w = c at acts
    cases acts with
    | @setShutdown _ _ side _ | @shutdown _ _ side => cases side <;> rfl
    | _ => rfl
  | _ => exact Or.inl h

theorem Step.destroyed_new (hs : Step s l s') (h : s'.jobCount = s.jobCount + 1) :
    (s'.jobs s.jobCount).destroyed = false := by
  cases hs with
  | accept _ => simp [PipeJob.new]
  | _ => exact absurd h (Nat.ne_of_lt (Nat.lt_succ_self _))

variable {xs : List (Sys S W × Label S W)}

/-- A job is in the queue once, and then no scheduling thread has it. -/
theorem queue_count (run : (system S W).Run xs s) (j : Nat) :
    s.queue.count j ≤ 1 ∧ (j ∈ s.queue → ∀ t, (s.sched t).job ≠ some j) := by
  have hone := schedules_le_one run j
  have hcount : s.queue.count j ≤ (s.queue.map fun j' => Place.schedules j (.queued j')).sum :=
    countP_le_sum (fun j' hj' => by simp [Place.schedules, beq_iff_eq.mp hj']) s.queue
  unfold Sys.weight at hone
  refine ⟨by omega, fun hmem t ht => ?_⟩
  have hsched := le_tally (fun c => Place.schedules j (.sched c)) s.sched t
  have hpos := List.count_pos_iff.mpr hmem
  simp only [Place.schedules, ht, if_true] at hsched hcount hone
  omega

/-- Only jobs that were accepted are held. -/
theorem lt_of_owned (run : (system S W).Run xs s) (h : s.Owned j) : j < s.jobCount := by
  refine run.always (P := fun s => ∀ j, s.Owned j → j < s.jobCount) (fun j h => ?_) (fun run h hn j hj => ?_) j h
  · rcases h with h | ⟨id, hlt, -, h⟩ | ⟨task, h, -⟩ | ⟨t, h⟩ | ⟨w, h⟩
    · cases h
    · have hid : id = 0 ∨ id = 1 := by
        simp only [system, List.length_cons, List.length_nil] at hlt
        omega
      rcases hid with rfl | rfl <;> cases h
    · cases h
    · cases h
    · cases h
  · have hs := (next_step hn).2
    rcases hs.owned (known_of_run run) hj with hbefore | ⟨rfl, hcount⟩
    · exact Nat.lt_of_lt_of_le (h j hbefore) hs.jobCount_le
    · rw [hcount]
      exact Nat.lt_succ_self _

/-- Nobody holds a job that is in the queue. -/
theorem not_alive_of_queued (run : (system S W).Run xs s) : ∀ j ∈ s.queue, ¬s.Alive j := by
  induction run with
  | init => exact fun j hj => absurd hj List.not_mem_nil
  | @step xs s s' l run hn ih =>
    intro j hmem halive
    have hs := (next_step hn).2
    rcases hs.alive (known_of_run run) halive with hbefore | ⟨t, ht⟩
    · obtain ⟨old, new, hturn, hmoves⟩ := hs.moves
      rcases hmoves.queue j hmem with hmem | hnew
      · exact ih j hmem hbefore
      · -- The job has just been accepted.
        have hlt := lt_of_owned run (Or.inr hbefore)
        generalize s'.jobCount = k at hturn
        generalize s'.heap.length = n at hturn
        cases hturn <;> simp at hnew
        omega
    · exact (queue_count (run.step hn) j).2 hmem t (by rw [ht]; rfl)

theorem not_destroyed_of_owned (run : (system S W).Run xs s) (h : s.Owned j) : (s.jobs j).destroyed = false := by
  refine run.always (P := fun s => ∀ j, s.Owned j → (s.jobs j).destroyed = false) (fun j _ => rfl) ?_ j h
  intro xs s l s' run ih hn j howned
  have hs := (next_step hn).2
  have known := known_of_run run
  rw [← Bool.not_eq_true]
  intro hdestroyed
  have hbefore : s.Owned j ∨ j = s.jobCount ∧ s'.jobCount = s.jobCount + 1 := hs.owned known howned
  rcases hs.destroyed hdestroyed with hold | ⟨hmem, hqueue, hsched⟩ | ⟨hqueue, hdead, hcount⟩
  · rcases hbefore with hbefore | ⟨rfl, hcount⟩
    · rw [ih j hbefore] at hold
      cases hold
    · rw [hs.destroyed_new hcount] at hdestroyed
      cases hdestroyed
  · -- Purged from the queue: it was there once, and nobody else had it.
    rcases howned with hqueued | halive
    · have hone := (queue_count run j).1
      have hpos := List.count_pos_iff.mpr hqueued
      rw [hqueue, List.count_erase_self] at hpos
      omega
    · refine not_alive_of_queued run j hmem ((hs.alive known halive).resolve_right ?_)
      rintro ⟨t, ht⟩
      rw [hsched] at ht
      exact (queue_count run j).2 hmem t (by rw [ht]; rfl)
  · rcases hbefore with hbefore | hnew
    · exact hbefore.elim hqueue hdead
    · omega

theorem not_destroyed_of_reaches (run : (system S W).Run xs s) (h : s.Reaches j) : (s.jobs j).destroyed = false :=
  not_destroyed_of_owned run (owned_of_reaches (known_of_run run) h)

/-- Nobody comes to a job after its destructor has run: the queue, the callbacks that were not deleted (also those whose
    registration was replaced), the tasks, the scheduling threads and the workers only have jobs that were not destroyed;
    and a purge, which destroys a job that it finds in the queue, takes it from nobody. The lambda of
    `ReceivedConnection` is no holder: it writes to `first_cb` through a raw pointer. -/
theorem job_outlives_holders (run : (system S W).Run xs s) :
    (∀ j, j ∈ s.queue ∨ s.Alive j → (s.jobs j).destroyed = false) ∧ ∀ j ∈ s.queue, ¬s.Alive j :=
  ⟨fun _ => not_destroyed_of_owned run, not_alive_of_queued run⟩

/-- A job is taken from the queue just before the purge that its first callback has asked for. -/
theorem job_outlives_holders_purge : ∃ xs s, (system Unit Unit).Run xs s ∧ s.sched () = .scheduled 0 ∧ s.purges = [] ∧
    (s.jobs 0).firstCb = none ∧ (s.jobs 0).destroyed = false := by
  obtain ⟨xs, s, run, -, hs⟩ := Lts.run_of_exec_any (system Unit Unit)
    [.wait [.listen 0], .invoke true false 0, .accept 5, .accepted, .finish, .wait [.pipe 0 .client], .invoke false false 0,
      .take () 0, .purge]
    (fun s => decide (s.sched () = .scheduled 0 ∧ s.purges = [] ∧ (s.jobs 0).firstCb = none)) (by decide)
  obtain ⟨hsched, hpurges, hfirst⟩ := of_decide_eq_true hs
  exact ⟨xs, s, run, hsched, hpurges, hfirst, 
    (job_outlives_holders run).1 0 (Or.inr (Or.inr (Or.inr (Or.inl ⟨(), by rw [hsched]; rfl⟩))))⟩

end Dans.ProxyJobs
