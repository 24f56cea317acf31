import Dans.Theorems.Tokens

/-! The lives of the callbacks. The reactor deletes a callback when it has run it, a scheduling thread the first callback of
    its job and a worker the second one, through pointers that the callbacks set to null when they run. Nothing keeps the
    reactor from having fetched an event of the callback when it is deleted, nor from having run the second callback
    before the pointer to it is stored: where neither happens, no deleted callback is used. -/

namespace Dans.ProxyJobs
open Tally
open Client (ReadyFor)

variable {S W : Type}

/-! ### One place for each callback, one thread for each job -/

/-- The registration, the event or the reactor that holds the callback. -/
def Place.callback (id : Nat) : Place → Nat
  | armed cb | fetched cb | running cb => if cb.id = id then 1 else 0
  | queued _ | sched _ | task _ | work _ => 0

theorem callback_bounded (id : Nat) : Bounded (Place.callback id) fun n _ => if id < n then 1 else 0 := by
  -- A step moves callbacks, or makes the next one.
  have key : ∀ n : Nat, ((if n = id then 1 else 0) + if id < n then 1 else 0) ≤ if id < n + 1 then 1 else 0 := by
    intro n
    split_ifs <;> omega
  intro n k n' k' old new hturn
  cases hturn with
  | stay | purge _ | take _ | connectNow _ _ _ | start _ | pipe _ _ _ => simp [Place.callback]
  | fetch cbs => simp [Place.callback, Function.comp_def]
  | quiet _ | cliClosed _ _ _ | connected _ _ _ _ | monitored _ _ _ _ | finish _ => simp [Place.callback]
  | serve _ _ | accept | connect _ _ =>
    have hn := key n
    simp [Place.callback] at hn ⊢
    omega
  | @schedule r c a acts | @work r c a acts =>
    have hn := key n
    cases a.register with
    | none => simp [Place.callback]
    | some c =>
      simp [Place.callback] at hn ⊢
      omega

/-- The queue or the scheduling thread that has the job. -/
def Place.schedules (j : Nat) : Place → Nat
  | queued j' => if j' = j then 1 else 0
  | sched c => if c.job = some j then 1 else 0
  | armed _ | fetched _ | running _ | task _ | work _ => 0

theorem schedules_bounded (j : Nat) : Bounded (Place.schedules j) fun _ k => if j < k then 1 else 0 := by
  intro n k n' k' old new hturn
  cases hturn with
  | fetch cbs => simp [Place.schedules, Function.comp_def]
  | stay | quiet _ | serve _ _ | cliClosed _ _ _ | connected _ _ _ _ | monitored _ _ _ _ | finish _ | purge _ | start _
  | pipe _ _ _ => simp [Place.schedules]
  | take _ | connect _ _ | connectNow _ _ _ => simp [Place.schedules, Sched.job]
  | accept =>
    simp only [Place.schedules, List.map_cons, List.map_nil, List.sum_cons, List.sum_nil]
    split_ifs <;> omega
  | schedule acts =>
    cases acts with
    | test next => rcases next with rfl | rfl <;> simp [Place.schedules, Sched.job]
    | monitor | assign | delete | clear => simp [Place.schedules, Sched.job]
  | @work r c a acts => cases a.register <;> simp [Place.schedules]

/-- What leads to the `ConnectCallback` of the job, and the worker that runs it. -/
def Work.connects : Work → Option Nat
  | connect j _ _ | monitorIn j | monitorOut j | testing j | deleting j | clearing j => some j
  | _ => none

def Place.connects (j : Nat) : Place → Nat
  | queued j' => if j' = j then 1 else 0
  | sched c => if c.awaits = some j then 1 else 0
  | armed cb | fetched cb => if cb.closure.awaits = some j then 1 else 0
  | running _ => 0
  | task t => if t.awaits = some j then 1 else 0
  | work c => if c.connects = some j then 1 else 0

theorem connects_bounded (j : Nat) : Bounded (Place.connects j) fun _ k => if j < k then 1 else 0 := by
  intro n k n' k' old new hturn
  cases hturn with
  | fetch cbs => simp [Place.connects, Function.comp_def]
  | stay | finish _ | purge _ => simp [Place.connects]
  | quiet kind => rcases kind with ⟨p, hp⟩ | ⟨p, hp⟩ <;> simp [Place.connects, hp, Closure.awaits]
  | serve _ _ | cliClosed _ _ _ | connected _ _ _ _ | monitored _ _ _ _ =>
    simp [Place.connects, Closure.awaits, Task.awaits]
  | take _ | connect _ _ | connectNow _ _ _ => simp [Place.connects, Sched.awaits, Closure.awaits, Task.awaits]
  | accept =>
    simp only [Place.connects, Closure.awaits, List.map_cons, List.map_nil, List.sum_cons, List.sum_nil]
    split_ifs <;> first | omega | contradiction
  | schedule acts =>
    cases acts with
    | test next => rcases next with rfl | rfl <;> simp [Place.connects, Sched.awaits]
    | monitor | assign | delete | clear => simp [Place.connects, Sched.awaits, Closure.awaits]
  | start task => cases task <;> simp [Place.connects, Task.awaits, Task.start, Work.connects]
  | work acts =>
    cases acts with
    | connect next | test next | monitor next | cliClosed next =>
      rcases next with rfl | rfl <;> simp [Place.connects, Work.connects]
    | monitorIn | monitorOut | delete | clear | report | add | rearm | leave | alone _ | setShutdown _ | shutdown =>
      simp [Place.connects, Work.connects, Closure.awaits]
  | pipe _ _ next => rcases next with rfl | rfl | ⟨units, rfl⟩ <;> simp [Place.connects, Work.connects]

/-! ### What a step does to callbacks and pointers -/

/-- A registration, an event or the reactor has the callback. -/
def Sys.Held (s : Sys S W) (cb : Callback) : Prop := cb ∈ s.epoll ∨ cb ∈ s.batch ∨ s.loop.running? = some cb

section Steps
variable {s s' : Sys S W} {l : Label S W} {cb : Callback} {j id : Nat}

theorem mem_armed {c : Option Closure} (h : cb ∈ s.armed c) :
    cb ∈ s.epoll ∧ (∀ c', c = some c' → cb.closure.socket ≠ c'.socket) ∨ c = some cb.closure ∧ cb.id = s.heap.length := by
  cases c with
  | none => exact Or.inl ⟨h, fun c' hc => by cases hc⟩
  | some c =>
    rcases List.mem_append.mp h with h | h
    · obtain ⟨hmem, hsocket⟩ := List.mem_filter.mp h
      refine Or.inl ⟨hmem, fun c' hc => ?_⟩
      cases hc
      simpa using hsocket
    · rw [List.mem_singleton.mp h]
      exact Or.inr ⟨rfl, rfl⟩

variable [Fintype S] [Fintype W] [DecidableEq S] [DecidableEq W]

/-- A step holds the callbacks that were held, and one that it has made. -/
theorem Step.held (hs : Step s l s') (h : s'.Held cb) :
    s.Held cb ∨ s'.heap = s.heap ++ [cb.closure] ∧ cb.id = s.heap.length := by
  have harmed : ∀ {c : Option Closure}, cb ∈ s.armed c →
      s.Held cb ∨ s.heap ++ c.toList = s.heap ++ [cb.closure] ∧ cb.id = s.heap.length := by
    intro c hmem
    rcases mem_armed hmem with ⟨hmem, -⟩ | ⟨rfl, hid⟩
    · exact Or.inl (Or.inl hmem)
    · exact Or.inr ⟨rfl, hid⟩
  have hinvoked : ∀ {cb' : Callback} {rest : List Callback}, s.batch = cb' :: rest → cb ∈ rest ∨ cb' = cb → s.Held cb := by
    rintro cb' rest hbatch (hmem | rfl)
    · exact Or.inr (Or.inl (hbatch ▸ List.mem_cons_of_mem _ hmem))
    · exact Or.inr (Or.inl (hbatch ▸ List.mem_cons_self))
  rcases h with hepoll | hbatch | hloop
  · cases hs with
    | wait _ perm => exact Or.inl (Or.inl (perm.subset (List.mem_append_right _ hepoll)))
    | serve _ _ _ | accept _ | connect _ => exact harmed (c := some _) hepoll
    | schedule _ _ _ | work _ _ _ => exact harmed hepoll
    | purge _ _ | destroy _ _ _ _ _ => exact Or.inl (Or.inl (List.mem_filter.mp hepoll).1)
    | _ => exact Or.inl (Or.inl hepoll)
  · cases hs with
    | wait _ perm =>
      rcases List.mem_append.mp hbatch with hmem | hmem
      · exact Or.inl (Or.inr (Or.inl hmem))
      · exact Or.inl (Or.inl (perm.subset (List.mem_append_left _ hmem)))
    | serve _ batch _ | closing _ batch _ | first _ batch _ | cliClosed _ batch _ | connected _ batch _
    | monitored _ batch _ => exact Or.inl (hinvoked batch (Or.inl hbatch))
    | _ => exact Or.inl (Or.inr (Or.inl hbatch))
  · cases hs with
    | serve _ batch _ | closing _ batch _ | first _ batch _ | cliClosed _ batch _ | connected _ batch _
    | monitored _ batch _ => exact Or.inl (hinvoked batch (Or.inr (Option.some.inj hloop)))
    | accepted loop => exact Or.inl (Or.inr (Or.inr (by rw [loop]; exact hloop)))
    | finish _ _ => cases hloop
    | _ => exact Or.inl (Or.inr (Or.inr hloop))

theorem Step.heap (hs : Step s l s') : s.heap <+: s'.heap := by
  cases hs with
  | serve _ _ _ | accept _ | schedule _ _ _ | connect _ | work _ _ _ => exact List.prefix_append _ _
  | _ => exact List.prefix_rfl

/-- A closure stays where it is. -/
theorem Step.closure (hs : Step s l s') {c : Closure} (h : s.heap[id]? = some c) : s'.heap[id]? = some c := by
  obtain ⟨cs, hcs⟩ := hs.heap
  rw [← hcs, List.getElem?_append_left (List.getElem?_eq_some_iff.mp h).1, h]

omit [Fintype S] [Fintype W] [DecidableEq S] [DecidableEq W] in
/-- What a step does to one job does not make pointers of others. -/
theorem pointer_update (f : PipeJob → Option Nat) {j' : Nat} {r : PipeJob}
    (h : f (Function.update s.jobs j' r j) = some id) (hr : f r = some id → f (s.jobs j') = some id) :
    f (s.jobs j) = some id := by
  rw [Function.update_apply] at h
  split at h
  · next heq => exact heq ▸ hr h
  · exact h

theorem Step.firstCb (hs : Step s l s') (h : (s'.jobs j).firstCb = some id) :
    (s.jobs j).firstCb = some id ∨ s'.heap = s.heap ++ [.first j] ∧ id = s.heap.length := by
  cases hs with
  | first _ _ _ => exact Or.inl (pointer_update (·.firstCb) h fun hr => by cases hr)
  | cliClosed _ _ _ | pipe _ _ => exact Or.inl (pointer_update (·.firstCb) h fun hr => hr)
  | purge _ _ | destroy _ _ _ _ _ => exact Or.inl (pointer_update (s := s) (·.firstCb) h fun hr => hr)
  | accept _ =>
    dsimp only at h
    rw [Function.update_apply] at h
    split at h
    · next heq =>
      rw [heq]
      exact Or.inr ⟨rfl, (Option.some.inj h).symm⟩
    · exact Or.inl h
  | @schedule t j' a _ acts _ =>
    refine Or.inl (pointer_update (·.firstCb) h fun hr => ?_)
    generalize s.sched t = c at acts
    cases acts with
    | clear => cases hr
    | _ => exact hr
  | @work w j' a _ acts _ =>
    refine Or.inl (pointer_update (·.firstCb) h fun hr => ?_)
    generalize s.work w = c at acts
    cases acts with
    | @setShutdown _ _ side _ | @shutdown _ _ side => cases side <;> exact hr
    | _ => exact hr
  | _ => exact Or.inl h

theorem Step.secondCb (hs : Step s l s') (h : (s'.jobs j).secondCb = some id) :
    (s.jobs j).secondCb = some id ∨ ∃ t, l = .schedule t ∧ s.sched t = .monitored j id := by
  cases hs with
  | cliClosed _ _ _ => exact Or.inl (pointer_update (·.secondCb) h fun hr => by cases hr)
  | first _ _ _ | pipe _ _ => exact Or.inl (pointer_update (·.secondCb) h fun hr => hr)
  | purge _ _ | destroy _ _ _ _ _ => exact Or.inl (pointer_update (s := s) (·.secondCb) h fun hr => hr)
  | accept _ => exact Or.inl (pointer_update (·.secondCb) h fun hr => by cases hr)
  | @schedule t j' a job acts _ =>
    generalize hc : s.sched t = c at job acts
    cases acts with
    | @assign _ id' =>
      cases job
      simp only [Sys.perform, Function.update_apply] at h
      split at h
      · next heq =>
        cases h
        exact Or.inr ⟨t, rfl, heq ▸ hc⟩
      · exact Or.inl h
    | _ => exact Or.inl (pointer_update (·.secondCb) h fun hr => hr)
  | @work w j' a _ acts _ =>
    refine Or.inl (pointer_update (·.secondCb) h fun hr => ?_)
    generalize s.work w = c at acts
    cases acts with
    | clear => cases hr
    | @setShutdown _ _ side _ | @shutdown _ _ side => cases side <;> exact hr
    | _ => exact hr
  | _ => exact Or.inl h

theorem Step.sched_monitored (hs : Step s l s') {t : S} (h : s'.sched t = .monitored j id) :
    s.sched t = .monitored j id ∨ s'.heap = s.heap ++ [.cliClosed j] ∧ id = s.heap.length := by
  have hother : ∀ {t' : S} {c : Sched}, c ≠ .monitored j id → Function.update s.sched t' c t = .monitored j id →
      s.sched t = .monitored j id := by
    intro t' c hc h
    rw [Function.update_apply] at h
    split at h
    · exact absurd h hc
    · exact h
  cases hs with
  | take _ _ | connect _ | connectNow _ => exact Or.inl (hother (by simp) h)
  | @schedule t' j' a _ acts _ =>
    generalize s.sched t' = c at acts
    cases acts with
    | @monitor j'' =>
      dsimp only at h
      rw [Function.update_apply] at h
      split at h
      · cases h
        exact Or.inr ⟨rfl, rfl⟩
      · exact Or.inl h
    | test next => exact Or.inl (hother (by rcases next with rfl | rfl <;> simp) h)
    | assign | delete | clear => exact Or.inl (hother (by simp) h)
  | _ => exact Or.inl h

/-- A callback is deleted by the reactor, by a scheduling thread or by a worker. -/
theorem Step.freed (hs : Step s l s') (h : s'.freed id = true) : s.freed id = true ∨
    (∃ cb, l = .finish ∧ s.loop.running? = some cb ∧ cb.id = id ∧ s'.loop = .between ∧ s'.epoll = s.epoll ∧
      s'.batch = s.batch) ∨
    (∃ t j, l = .schedule t ∧ s.sched t = .deleting j ∧ (s.jobs j).firstCb = some id ∧ s'.sched t = .clearing j) ∨
    ∃ w j, l = .work w ∧ s.work w = .deleting j ∧ (s.jobs j).secondCb = some id ∧ s'.work w = .clearing j := by
  have hdelete : ∀ id? : Option Nat, (id?.elim s.freed fun id => Function.update s.freed id true) id = true →
      s.freed id = true ∨ id? = some id := by
    intro id? h
    cases id? with
    | none => exact Or.inl h
    | some id' =>
      rcases eq_or_ne id id' with rfl | hne
      · exact Or.inr rfl
      · simp only [Option.elim_some, Function.update_of_ne hne] at h
        exact Or.inl h
  cases hs with
  | @finish cb loop _ =>
    rcases hdelete (some cb.id) h with h | h
    · exact Or.inl h
    · exact Or.inr (Or.inl ⟨cb, rfl, by rw [loop]; rfl, Option.some.inj h, rfl, rfl, rfl⟩)
  | @schedule t j' a job acts _ =>
    rcases hdelete _ h with h | h
    · exact Or.inl h
    · generalize hc : s.sched t = c at job acts
      cases acts with
      | delete =>
        cases job
        exact Or.inr (Or.inr (Or.inl ⟨t, j', rfl, hc, h, by simp⟩))
      | _ => cases h
  | @work w j' a job acts _ =>
    rcases hdelete _ h with h | h
    · exact Or.inl h
    · generalize hc : s.work w = c at job acts
      cases acts with
      | delete =>
        cases job
        exact Or.inr (Or.inr (Or.inr ⟨w, j', rfl, hc, h, by simp⟩))
      | _ => cases h
  | _ => exact Or.inl h

/-- The reactor goes on with its callback, or takes the next one, which sets the pointer to it to null. -/
theorem Step.running (hs : Step s l s') (h : s'.loop.running? = some cb) : s.loop.running? = some cb ∨ cb ∈ s.batch ∧
    (∀ j, cb.closure = .first j → (s'.jobs j).firstCb = none) ∧
      ∀ j, cb.closure = .cliClosed j → (s'.jobs j).secondCb = none := by
  cases hs with
  | serve _ batch _ | closing _ batch _ | connected _ batch _ | monitored _ batch _ =>
    cases h
    exact Or.inr ⟨batch ▸ List.mem_cons_self, fun j hj => (by cases hj), fun j hj => (by cases hj)⟩
  | first _ batch _ =>
    cases h
    refine Or.inr ⟨batch ▸ List.mem_cons_self, fun j hj => ?_, fun j hj => (by cases hj)⟩
    cases hj
    simp
  | cliClosed _ batch _ =>
    cases h
    refine Or.inr ⟨batch ▸ List.mem_cons_self, fun j hj => (by cases hj), fun j hj => ?_⟩
    cases hj
    simp
  | accepted loop =>
    rw [loop]
    exact Or.inl h
  | finish _ _ => cases h
  | _ => exact Or.inl h

/-- A scheduling thread that has deleted the first callback sets the pointer to null. -/
theorem Step.sched_clearing (hs : Step s l s') {t : S} (h : s.sched t = .clearing j) :
    s'.sched t = .clearing j ∨ (s'.jobs j).firstCb = none := by
  have hother : ∀ {t' : S} {c : Sched}, s.sched t' ≠ .clearing j → Function.update s.sched t' c t = .clearing j := by
    intro t' c hne
    have htt : t ≠ t' := fun heq => hne (heq ▸ h)
    rw [Function.update_of_ne htt, h]
  cases hs with
  | take idle _ => exact Or.inl (hother (by simp [idle]))
  | connect sched | connectNow sched => exact Or.inl (hother (by simp [sched]))
  | @schedule t' j' a job acts _ =>
    by_cases htt : t = t'
    · subst htt
      rw [h] at job acts
      cases job
      cases acts
      exact Or.inr (by simp [Sys.perform])
    · dsimp only
      rw [Function.update_of_ne htt]
      exact Or.inl h
  | _ => exact Or.inl h

/-- A worker that has deleted the second callback sets the pointer to null. -/
theorem Step.work_clearing (hs : Step s l s') {w : W} (h : s.work w = .clearing j) :
    s'.work w = .clearing j ∨ (s'.jobs j).secondCb = none := by
  rcases hs.work_cases w with heq | ⟨task, -, hidle, -⟩ | ⟨j', a, -, job, acts, -, hjob, -⟩ |
    ⟨j', side, _, _, _, p, -, hw, -⟩
  · exact Or.inl (heq.trans h)
  · rw [h] at hidle
    cases hidle
  · rw [h] at job acts
    cases job
    cases acts
    exact Or.inr (by rw [hjob])
  · rw [h] at hw
    cases hw

/-! ### What every run keeps -/

/-- Callbacks and pointers are what they were made as. -/
structure Known (s : Sys S W) : Prop where
  held : ∀ cb, s.Held cb → s.heap[cb.id]? = some cb.closure
  firstCb : ∀ j id, (s.jobs j).firstCb = some id → s.heap[id]? = some (.first j)
  secondCb : ∀ j id, (s.jobs j).secondCb = some id → s.heap[id]? = some (.cliClosed j)
  sched : ∀ t j id, s.sched t = .monitored j id → s.heap[id]? = some (.cliClosed j)
  freed : ∀ id, s.freed id = true → id < s.heap.length

/-- Only callbacks that were there can be deleted. -/
theorem Known.freed_lt (h : Known s) (hs : Step s l s') (hid : s'.freed id = true) : id < s.heap.length := by
  rcases hs.freed hid with hfreed | ⟨cb, -, hcb, rfl, -⟩ | ⟨t, j, -, -, hfirst, -⟩ | ⟨w, j, -, -, hsecond, -⟩
  · exact h.freed id hfreed
  · exact (List.getElem?_eq_some_iff.mp (h.held cb (Or.inr (Or.inr hcb)))).1
  · exact (List.getElem?_eq_some_iff.mp (h.firstCb j id hfirst)).1
  · exact (List.getElem?_eq_some_iff.mp (h.secondCb j id hsecond)).1

theorem Known.step (h : Known s) (hs : Step s l s') : Known s' := by
  have hfresh : ∀ {c : Closure}, s'.heap = s.heap ++ [c] → s'.heap[s.heap.length]? = some c := fun heq => by simp [heq]
  refine ⟨fun cb hcb => ?_, fun j id hid => ?_, fun j id hid => ?_, fun t j id ht => ?_, fun id hid => ?_⟩
  · rcases hs.held hcb with hcb | ⟨heap, hid⟩
    · exact hs.closure (h.held cb hcb)
    · rw [hid, hfresh heap]
  · rcases hs.firstCb hid with hid | ⟨heap, rfl⟩
    · exact hs.closure (h.firstCb j id hid)
    · exact hfresh heap
  · rcases hs.secondCb hid with hid | ⟨t, -, ht⟩
    · exact hs.closure (h.secondCb j id hid)
    · exact hs.closure (h.sched t j id ht)
  · rcases hs.sched_monitored ht with ht | ⟨heap, rfl⟩
    · exact hs.closure (h.sched t j id ht)
    · exact hfresh heap
  · exact Nat.lt_of_lt_of_le (h.freed_lt hs hid) hs.heap.length_le

variable {xs : List (Sys S W × Label S W)}

theorem known_of_run (run : (system S W).Run xs s) : Known s := by
  refine run.always (P := Known) ?_ fun _ h hn => h.step (next_step hn).2
  refine ⟨fun cb hcb => ?_, fun _ _ hid => (by cases hid), fun _ _ hid => (by cases hid), fun _ _ _ ht => (by cases ht),
    fun _ hid => (by cases hid)⟩
  rcases hcb with hcb | hcb | hcb
  · simp only [system, List.mem_cons, List.not_mem_nil, or_false] at hcb
    rcases hcb with rfl | rfl <;> rfl
  · cases hcb
  · cases hcb

theorem callback_le_one (run : (system S W).Run xs s) (id : Nat) : s.weight (Place.callback id) ≤ 1 := by
  have init : (system S W).init.weight (Place.callback id) ≤ if id < 2 then 1 else 0 := by
    simp [Sys.weight, system, tally, Place.callback, Loop.running?]
    split_ifs <;> omega
  refine (weight_le_of_run (callback_bounded id) init run).trans ?_
  split <;> omega

theorem schedules_le_one (run : (system S W).Run xs s) (j : Nat) : s.weight (Place.schedules j) ≤ 1 := by
  have init : (system S W).init.weight (Place.schedules j) ≤ 0 := by
    simp [Sys.weight, system, tally, Place.schedules, Loop.running?, Sched.job]
  refine (weight_le_of_run (schedules_bounded j) init run).trans ?_
  split <;> omega

theorem connects_le_one (run : (system S W).Run xs s) (j : Nat) : s.weight (Place.connects j) ≤ 1 := by
  have init : (system S W).init.weight (Place.connects j) ≤ 0 := by
    simp [Sys.weight, system, tally, Place.connects, Loop.running?, Sched.awaits, Closure.awaits, Work.connects]
  refine (weight_le_of_run (connects_bounded j) init run).trans ?_
  split <;> omega

/-- A job that a scheduling thread has is not in the queue, and no other thread has it. -/
theorem sched_unique (run : (system S W).Run xs s) {t : S} (ht : (s.sched t).job = some j) :
    j ∉ s.queue ∧ ∀ t', (s.sched t').job = some j → t' = t := by
  have hone := schedules_le_one run j
  have htally := le_tally (fun c => Place.schedules j (.sched c)) s.sched t
  simp only [Sys.weight, Place.schedules, ht, if_true] at hone htally
  refine ⟨fun hmem => ?_, fun t' ht' => ?_⟩
  · have hqueue := List.single_le_sum (fun _ _ => Nat.zero_le _) _
      (List.mem_map_of_mem (f := fun j' => if j' = j then 1 else 0) hmem)
    simp only [if_true] at hqueue
    omega
  · by_contra hne
    have htwo := add_le_tally (fun c => Place.schedules j (.sched c)) s.sched hne
    simp only [Place.schedules, ht, ht', if_true] at htwo
    omega

/-- A job whose `ConnectCallback` a worker runs is not still to be connected, and no other worker runs it. -/
theorem work_unique (run : (system S W).Run xs s) {w : W} (hw : (s.work w).connects = some j) :
    (∀ t, (s.sched t).awaits ≠ some j) ∧ ∀ w', (s.work w').connects = some j → w' = w := by
  have hone := connects_le_one run j
  have htally := le_tally (fun c => Place.connects j (.work c)) s.work w
  simp only [Sys.weight, Place.connects, hw, if_true] at hone htally
  refine ⟨fun t ht => ?_, fun w' hw' => ?_⟩
  · have hsched := le_tally (fun c => Place.connects j (.sched c)) s.sched t
    simp only [Place.connects, ht, if_true] at hsched
    omega
  · by_contra hne
    have htwo := add_le_tally (fun c => Place.connects j (.work c)) s.work hne
    simp only [Place.connects, hw, hw', if_true] at htwo
    omega

/-- The callback that the reactor runs is neither registered nor fetched again. -/
theorem running_unique (run : (system S W).Run xs s) {cb cb' : Callback} (hcb : s.loop.running? = some cb)
    (hid : cb'.id = cb.id) : cb' ∉ s.epoll ∧ cb' ∉ s.batch := by
  have hone := callback_le_one run cb.id
  simp only [Sys.weight, hcb, Option.toList_some, List.map_cons, List.map_nil, List.sum_cons, List.sum_nil, Place.callback,
    if_true] at hone
  have hmem : ∀ {l : List Callback}, cb' ∈ l → 1 ≤ (l.map fun x => if x.id = cb.id then 1 else 0).sum := by
    intro l hl
    have hsum := List.single_le_sum (fun _ _ => Nat.zero_le _) _
      (List.mem_map_of_mem (f := fun x : Callback => if x.id = cb.id then 1 else 0) hl)
    rwa [if_pos hid] at hsum
  refine ⟨fun hl => ?_, fun hl => ?_⟩ <;> have hsum := hmem hl <;> omega

/-- A callback that is held was deleted through the pointer to it, if it was deleted. -/
theorem Step.freed_held (run : (system S W).Run xs s) (hs : Step s l s') (hcb : s'.Held cb)
    (hfreed : s'.freed cb.id = true) :
    s.Held cb ∧ (s.freed cb.id = true ∨ (∃ t j, l = .schedule t ∧ s.sched t = .deleting j ∧ cb.closure = .first j ∧
      (s.jobs j).firstCb = some cb.id) ∨ ∃ w j, l = .work w ∧ s.work w = .deleting j ∧ cb.closure = .cliClosed j ∧
      (s.jobs j).secondCb = some cb.id) := by
  have known := known_of_run run
  rcases hs.held hcb with hheld | ⟨-, hid⟩
  · refine ⟨hheld, ?_⟩
    have hclosure := known.held cb hheld
    rcases hs.freed hfreed with hbefore | ⟨cb', -, hrunning, hid, hloop, hepoll, hbatch⟩ | ⟨t, j, label, ht, hfirst, -⟩ |
      ⟨w, j, label, hw, hsecond, -⟩
    · exact Or.inl hbefore
    · -- The reactor holds the callback nowhere else when it deletes it.
      obtain ⟨hnotArmed, hnotFetched⟩ := running_unique run hrunning hid.symm
      rcases hcb with hcb | hcb | hcb
      · exact absurd (hepoll ▸ hcb) hnotArmed
      · exact absurd (hbatch ▸ hcb) hnotFetched
      · rw [hloop] at hcb
        cases hcb
    · exact Or.inr (Or.inl ⟨t, j, label, ht, Option.some.inj (hclosure.symm.trans (known.firstCb j _ hfirst)), hfirst⟩)
    · exact Or.inr (Or.inr ⟨w, j, label, hw, Option.some.inj (hclosure.symm.trans (known.secondCb j _ hsecond)), hsecond⟩)
  · exact absurd (hid ▸ known.freed_lt hs hfreed) (Nat.lt_irrefl _)

/-! ### Registrations that were replaced -/

/-- The worker has given the client's socket to `Monitor` in its `ConnectCallback`. -/
def Work.replaced : Work → Option Nat
  | monitorOut j | testing j | deleting j | clearing j => some j
  | _ => none

omit [DecidableEq S] [DecidableEq W] [Fintype S] [Fintype W] in
theorem Work.connects_of_replaced {c : Work} (h : c.replaced = some j) : c.connects = some j := by
  cases c <;> first | exact h | cases h

/-- The first callback of a job is registered until its scheduling thread registers the second one, which is so until
    `ConnectCallback` registers the next. -/
structure Replaced (s : Sys S W) : Prop where
  first : ∀ cb ∈ s.epoll, ∀ j, cb.closure = .first j → j ∈ s.queue ∨ ∃ t, s.sched t = .scheduled j
  second : ∀ cb ∈ s.epoll, ∀ j, cb.closure = .cliClosed j → ∀ w, (s.work w).replaced ≠ some j

theorem Replaced.first_step (h : Replaced s) (hs : Step s l s') (hcb : cb ∈ s'.epoll) (hj : cb.closure = .first j) :
    j ∈ s'.queue ∨ ∃ t, s'.sched t = .scheduled j := by
  have harmed : ∀ {c : Closure}, (∀ j, c ≠ .first j) → cb ∈ s.armed (some c) → cb ∈ s.epoll := by
    intro c hc hmem
    rcases mem_armed hmem with ⟨hmem, -⟩ | ⟨heq, -⟩
    · exact hmem
    · cases heq
      exact absurd hj (hc j)
  have hkeep : ∀ {t : S} {c : Sched}, s.sched t ≠ .scheduled j → cb ∈ s.epoll →
      j ∈ s.queue ∨ ∃ t', Function.update s.sched t c t' = .scheduled j := by
    intro t c hne hmem
    rcases h.first cb hmem j hj with hqueue | ⟨t', ht'⟩
    · exact Or.inl hqueue
    · have htt : t' ≠ t := fun heq => hne (heq ▸ ht')
      exact Or.inr ⟨t', by rw [Function.update_of_ne htt, ht']⟩
  cases hs with
  | wait _ perm => exact h.first cb (perm.subset (List.mem_append_right _ hcb)) j hj
  | serve _ _ _ => exact h.first cb (harmed (by simp) hcb) j hj
  | accept _ =>
    rcases mem_armed (c := some _) hcb with ⟨hmem, -⟩ | ⟨heq, -⟩
    · rcases h.first cb hmem j hj with hqueue | hsched
      · exact Or.inl (List.mem_append_left _ hqueue)
      · exact Or.inr hsched
    · rw [hj] at heq
      cases heq
      exact Or.inl (by simp)
  | @purge j' rest _ _ =>
    obtain ⟨hmem, hsocket⟩ := List.mem_filter.mp hcb
    have hne : j ≠ j' := by
      rintro rfl
      simp [hj, Closure.socket] at hsocket
    rcases h.first cb hmem j hj with hqueue | hsched
    · exact Or.inl ((List.mem_erase_of_ne hne).mpr hqueue)
    · exact Or.inr hsched
  | destroy _ _ _ _ _ => exact h.first cb (List.mem_filter.mp hcb).1 j hj
  | @take t j' idle _ =>
    rcases eq_or_ne j j' with rfl | hne
    · exact Or.inr ⟨t, Function.update_self _ _ _⟩
    · rcases hkeep (c := .scheduled j') (by simp [idle] : s.sched t ≠ .scheduled j) hcb with hqueue | hsched
      · exact Or.inl ((List.mem_erase_of_ne hne).mpr hqueue)
      · exact Or.inr hsched
  | @schedule t j' a job acts _ =>
    generalize hc : s.sched t = c at job acts
    cases acts with
    | @monitor j'' =>
      rcases mem_armed (c := some _) hcb with ⟨hmem, hsocket⟩ | ⟨heq, -⟩
      · refine hkeep (fun ht => hsocket _ rfl ?_) hmem
        cases hc.symm.trans ht
        rw [hj]
        rfl
      · rw [hj] at heq
        cases heq
    | assign | test _ | delete | clear => exact hkeep (by simp [hc]) hcb
  | connect sched => exact hkeep (by simp [sched]) (harmed (by simp) hcb)
  | connectNow sched => exact hkeep (by simp [sched]) hcb
  | @work w j' a job acts _ =>
    refine h.first cb ?_ j hj
    generalize s.work w = c at acts
    cases acts with
    | monitorIn | monitorOut | rearm => exact harmed (by simp) hcb
    | _ => exact hcb
  | _ => exact h.first cb hcb j hj

theorem Replaced.second_step (run : (system S W).Run xs s) (h : Replaced s) (hs : Step s l s') (hcb : cb ∈ s'.epoll)
    (hj : cb.closure = .cliClosed j) (w : W) : (s'.work w).replaced ≠ some j := by
  have harmed : ∀ {c : Closure}, (∀ j, c ≠ .cliClosed j) → cb ∈ s.armed (some c) → cb ∈ s.epoll := by
    intro c hc hmem
    rcases mem_armed hmem with ⟨hmem, -⟩ | ⟨heq, -⟩
    · exact hmem
    · cases heq
      exact absurd hj (hc j)
  have hkeep : ∀ {w' : W} {c : Work}, (c.replaced = some j → (s.work w').replaced = some j) → cb ∈ s.epoll →
      (Function.update s.work w' c w).replaced ≠ some j := by
    intro w' c hc hmem hreplaced
    rw [Function.update_apply] at hreplaced
    split at hreplaced
    · exact h.second cb hmem j hj w' (hc hreplaced)
    · exact h.second cb hmem j hj w hreplaced
  cases hs with
  | wait _ perm => exact h.second cb (perm.subset (List.mem_append_right _ hcb)) j hj w
  | serve _ _ _ | accept _ | connect _ => exact h.second cb (harmed (by simp) hcb) j hj w
  | purge _ _ | destroy _ _ _ _ _ => exact h.second cb (List.mem_filter.mp hcb).1 j hj w
  | @schedule t j' a job acts _ =>
    generalize hc : s.sched t = c at job acts
    cases acts with
    | @monitor j'' =>
      rcases mem_armed (c := some _) hcb with ⟨hmem, -⟩ | ⟨heq, -⟩
      · exact h.second cb hmem j hj w
      · rw [hj] at heq
        cases heq
        intro hreplaced
        exact (work_unique run (Work.connects_of_replaced hreplaced)).1 t (by rw [hc]; rfl)
    | assign | test _ | delete | clear => exact h.second cb hcb j hj w
  | @start w' task _ _ _ => exact hkeep (fun hc => by cases task <;> cases hc) hcb
  | @work w' j' a job acts _ =>
    generalize hc : s.work w' = c at job acts
    cases acts with
    | @monitorIn j'' =>
      rcases mem_armed (c := some _) hcb with ⟨hmem, hsocket⟩ | ⟨heq, -⟩
      · refine hkeep (fun hreplaced => absurd ?_ (hsocket _ rfl)) hmem
        cases hreplaced
        rw [hj]
        rfl
      · rw [hj] at heq
        cases heq
    | monitorOut => exact hkeep (fun hreplaced => by rw [hc]; exact hreplaced) (harmed (by simp) hcb)
    | rearm => exact hkeep (fun hreplaced => by cases hreplaced) (harmed (by simp) hcb)
    | test next =>
      refine hkeep (fun hreplaced => ?_) hcb
      rw [hc]
      rcases next with rfl | rfl
      · exact hreplaced
      · cases hreplaced
    | delete => exact hkeep (fun hreplaced => by rw [hc]; exact hreplaced) hcb
    | connect next | monitor next | cliClosed next =>
      exact hkeep (fun hreplaced => by rcases next with rfl | rfl <;> cases hreplaced) hcb
    | clear | report | add | leave | alone _ | setShutdown _ | shutdown =>
      exact hkeep (fun hreplaced => by cases hreplaced) hcb
  | @pipe w' j' side _ _ _ p _ _ =>
    refine hkeep (fun hreplaced => ?_) hcb
    rcases Work.piped_cases j' side ((s.jobs j').soc side) p.ret with heq | heq | ⟨units, heq⟩ <;>
      rw [heq] at hreplaced <;> cases hreplaced
  | _ => exact h.second cb hcb j hj w

theorem replaced_of_run (run : (system S W).Run xs s) : Replaced s := by
  refine run.always (P := Replaced) ⟨fun cb hcb j hj => ?_, fun cb hcb j hj => ?_⟩ fun run h hn => ?_
  · simp only [system, List.mem_cons, List.not_mem_nil, or_false] at hcb
    rcases hcb with rfl | rfl <;> cases hj
  · simp only [system, List.mem_cons, List.not_mem_nil, or_false] at hcb
    rcases hcb with rfl | rfl <;> cases hj
  · have hs := (next_step hn).2
    exact ⟨fun _ hcb _ hj => h.first_step hs hcb hj, fun _ hcb _ hj => h.second_step run hs hcb hj⟩

/-! ### Runs in order -/

/-- The reactor has an event of the callback, or runs it. -/
def Sys.fetched (s : Sys S W) (id : Nat) : Bool := (s.loop.running?.toList ++ s.batch).any fun cb => cb.id == id

/-- A pointer is deleted only while the reactor has no event of the callback and does not run it, and `second_cb` is set
    before the reactor runs the callback. -/
def Sys.orderly (s : Sys S W) : Label S W → Bool
  | .schedule t =>
    match s.sched t with
    | .monitored _ id => !s.freed id && s.loop.running?.all fun cb => cb.id != id
    | .deleting j => (s.jobs j).firstCb.all fun id => !s.fetched id
    | _ => true
  | .work w =>
    match s.work w with
    | .deleting j => (s.jobs j).secondCb.all fun id => !s.fetched id
    | _ => true
  | _ => true

/-- No callback that can still be called, and no pointer that can still be deleted, is to a deleted callback. -/
structure Safe (s : Sys S W) : Prop where
  held : ∀ cb, s.Held cb → s.freed cb.id = false
  firstCb : ∀ j id, (s.jobs j).firstCb = some id → s.freed id = false ∨ ∃ t, s.sched t = .clearing j
  secondCb : ∀ j id, (s.jobs j).secondCb = some id → s.freed id = false ∨ ∃ w, s.work w = .clearing j
  runFirst : ∀ cb j, s.loop.running? = some cb → cb.closure = .first j → (s.jobs j).firstCb ≠ some cb.id
  runSecond : ∀ cb j, s.loop.running? = some cb → cb.closure = .cliClosed j → (s.jobs j).secondCb ≠ some cb.id

omit [Fintype S] [Fintype W] [DecidableEq S] [DecidableEq W] in
theorem armed_of_not_fetched (hid : s.fetched cb.id = false) (h : s.Held cb) : cb ∈ s.epoll := by
  simp only [Sys.fetched, List.any_eq_false, List.mem_append, beq_iff_eq] at hid
  rcases h with h | h | h
  · exact h
  · exact absurd rfl (hid cb (Or.inr h))
  · exact absurd rfl (hid cb (Or.inl (by simp [h])))

theorem Safe.held_step (run : (system S W).Run xs s) (h : Safe s) (hok : s.orderly l = true) (hs : Step s l s')
    (hcb : s'.Held cb) : s'.freed cb.id = false := by
  rw [← Bool.not_eq_true]
  intro hfreed
  obtain ⟨hheld, hbefore | ⟨t, j, rfl, ht, hj, hfirst⟩ | ⟨w, j, rfl, hw, hj, hsecond⟩⟩ := hs.freed_held run hcb hfreed
  · rw [h.held cb hheld] at hbefore
    cases hbefore
  · -- The first callback is not registered any more when its scheduling thread deletes it.
    have hnot : s.fetched cb.id = false := by simpa [Sys.orderly, ht, hfirst] using hok
    obtain ⟨hqueue, hother⟩ := sched_unique run (t := t) (j := j) (by rw [ht]; rfl)
    rcases (replaced_of_run run).first cb (armed_of_not_fetched hnot hheld) j hj with hmem | ⟨t', ht'⟩
    · exact hqueue hmem
    · cases hother t' (by rw [ht']; rfl)
      rw [ht] at ht'
      cases ht'
  · have hnot : s.fetched cb.id = false := by simpa [Sys.orderly, hw, hsecond] using hok
    exact (replaced_of_run run).second cb (armed_of_not_fetched hnot hheld) j hj w (by rw [hw]; rfl)

theorem Safe.firstCb_step (run : (system S W).Run xs s) (h : Safe s) (hs : Step s l s')
    (hid : (s'.jobs j).firstCb = some id) :
    s'.freed id = false ∨ ∃ t, s'.sched t = .clearing j := by
  have known := known_of_run run
  rcases hs.firstCb hid with hbefore | ⟨-, rfl⟩
  · rcases h.firstCb j id hbefore with hlive | ⟨t, ht⟩
    · rw [← Bool.not_eq_true, or_iff_not_imp_left, not_not]
      intro hfreed
      have hclosure := known.firstCb j id hbefore
      rcases hs.freed hfreed with hbefore | ⟨cb, -, hrunning, rfl, -⟩ | ⟨t, j', -, -, hfirst, ht⟩ | ⟨w, j', -, -, hsecond, -⟩
      · rw [hlive] at hbefore
        cases hbefore
      · have hj := Option.some.inj ((known.held cb (Or.inr (Or.inr hrunning))).symm.trans hclosure)
        exact absurd hbefore (h.runFirst cb j hrunning hj)
      · cases Option.some.inj ((known.firstCb j' id hfirst).symm.trans hclosure)
        exact ⟨t, ht⟩
      · cases Option.some.inj ((known.secondCb j' id hsecond).symm.trans hclosure)
    · rcases hs.sched_clearing ht with ht | hnone
      · exact Or.inr ⟨t, ht⟩
      · rw [hnone] at hid
        cases hid
  · left
    rw [← Bool.not_eq_true]
    intro hfreed
    exact Nat.lt_irrefl _ (known.freed_lt hs hfreed)

theorem Safe.secondCb_step (run : (system S W).Run xs s) (h : Safe s) (hok : s.orderly l = true) (hs : Step s l s')
    (hid : (s'.jobs j).secondCb = some id) : s'.freed id = false ∨ ∃ w, s'.work w = .clearing j := by
  have known := known_of_run run
  rcases hs.secondCb hid with hbefore | ⟨t, rfl, ht⟩
  · rcases h.secondCb j id hbefore with hlive | ⟨w, hw⟩
    · rw [← Bool.not_eq_true, or_iff_not_imp_left, not_not]
      intro hfreed
      have hclosure := known.secondCb j id hbefore
      rcases hs.freed hfreed with hbefore | ⟨cb, -, hrunning, rfl, -⟩ | ⟨t, j', -, -, hfirst, -⟩ | ⟨w, j', -, -, hsecond, hw⟩
      · rw [hlive] at hbefore
        cases hbefore
      · have hj := Option.some.inj ((known.held cb (Or.inr (Or.inr hrunning))).symm.trans hclosure)
        exact absurd hbefore (h.runSecond cb j hrunning hj)
      · cases Option.some.inj ((known.firstCb j' id hfirst).symm.trans hclosure)
      · cases Option.some.inj ((known.secondCb j' id hsecond).symm.trans hclosure)
        exact ⟨w, hw⟩
    · rcases hs.work_clearing hw with hw | hnone
      · exact Or.inr ⟨w, hw⟩
      · rw [hnone] at hid
        cases hid
  · left
    rw [← Bool.not_eq_true]
    intro hfreed
    simp only [Sys.orderly, ht, Bool.and_eq_true, Bool.not_eq_true'] at hok
    rcases hs.freed hfreed with hbefore | ⟨cb, hl, -⟩ | ⟨t', j', hl, ht', -⟩ | ⟨w, j', hl, -⟩
    · rw [hok.1] at hbefore
      cases hbefore
    · cases hl
    · cases hl
      rw [ht] at ht'
      cases ht'
    · cases hl

theorem Safe.step (run : (system S W).Run xs s) (h : Safe s) (hok : s.orderly l = true) (hs : Step s l s') : Safe s' := by
  have known := known_of_run run
  refine ⟨fun cb hcb => h.held_step run hok hs hcb, fun j id hid => h.firstCb_step run hs hid,
    fun j id hid => h.secondCb_step run hok hs hid, fun cb j hcb hj hfirst => ?_, fun cb j hcb hj hsecond => ?_⟩
  · rcases hs.running hcb with hbefore | ⟨-, hnone, -⟩
    · rcases hs.firstCb hfirst with hfirst | ⟨-, hid⟩
      · exact h.runFirst cb j hbefore hj hfirst
      · have hlt := (List.getElem?_eq_some_iff.mp (known.held cb (Or.inr (Or.inr hbefore)))).1
        exact Nat.lt_irrefl _ (hid ▸ hlt)
    · rw [hnone j hj] at hfirst
      cases hfirst
  · rcases hs.running hcb with hbefore | ⟨-, -, hnone⟩
    · rcases hs.secondCb hsecond with hsecond | ⟨t, rfl, ht⟩
      · exact h.runSecond cb j hbefore hj hsecond
      · simp [Sys.orderly, ht, hbefore] at hok
    · rw [hnone j hj] at hsecond
      cases hsecond

/-- A safe state uses no deleted callback. -/
theorem Safe.not_fails (run : (system S W).Run xs s) (h : Safe s) {f : Fault} : ¬Fails s l f := by
  intro hfails
  cases hfails with
  | @invoke cb rest inp out err batch freed =>
    rw [h.held cb (Or.inr (Or.inl (batch ▸ List.mem_cons_self)))] at freed
    cases freed
  | @finish cb loop freed =>
    rw [h.held cb (Or.inr (Or.inr (by rw [loop]; rfl)))] at freed
    cases freed
  | @first t j id sched firstCb freed =>
    rcases h.firstCb j id firstCb with hlive | ⟨t', ht'⟩
    · rw [hlive] at freed
      cases freed
    · cases (sched_unique run (t := t) (j := j) (by rw [sched]; rfl)).2 t' (by rw [ht']; rfl)
      rw [sched] at ht'
      cases ht'
  | @second w j id work secondCb freed =>
    rcases h.secondCb j id secondCb with hlive | ⟨w', hw'⟩
    · rw [hlive] at freed
      cases freed
    · cases (work_unique run (w := w) (j := j) (by rw [work]; rfl)).2 w' (by rw [hw']; rfl)
      rw [work] at hw'
      cases hw'

theorem Step.fault_cases (hs : Step s l s') : s'.fault = s.fault ∨ ∃ f, Fails s l f := by
  cases hs with
  | fault fails => exact Or.inr ⟨_, fails⟩
  | _ => exact Or.inl rfl

/-- In a run in order no deleted callback is called, and none is deleted twice. -/
theorem callbacks_live (run : (system S W).Run xs s) (hok : Lts.Meets (fun s l => s.orderly l = true) xs) :
    s.fault = none := by
  have init : Safe (system S W).init :=
    ⟨fun _ _ => rfl, fun _ _ hid => (by cases hid), fun _ _ hid => (by cases hid), fun _ _ hcb => (by cases hcb),
      fun _ _ hcb => (by cases hcb)⟩
  have hinv := run.invariant (P := fun s => s.fault = none ∧ Safe s) hok ⟨rfl, init⟩ fun run h hok hn => by
    obtain ⟨hnone, hs⟩ := next_step hn
    refine ⟨?_, h.2.step run hok hs⟩
    rcases hs.fault_cases with heq | ⟨f, hfails⟩
    · exact heq.trans hnone
    · exact absurd hfails (h.2.not_fails run)
  exact hinv.1

end Steps

/-- The first callback is deleted by its scheduling thread and the second by the worker that connects. -/
theorem callbacks_live_openPipe : ∃ xs s, (system Unit Unit).Run xs s ∧ Lts.Meets (fun s l => s.orderly l = true) xs ∧
    s.freed 3 = true ∧ s.freed 4 = true ∧ s.fault = none := by
  obtain ⟨xs, s, run, -, hs⟩ := Lts.run_of_exec_any ((system Unit Unit).restrict fun s l => s.orderly l = true)
    (openPipe () ()) (fun s => decide (s.freed 3 = true ∧ s.freed 4 = true)) (by decide)
  obtain ⟨run, hok⟩ := run.of_restrict
  obtain ⟨hfirst, hsecond⟩ := of_decide_eq_true hs
  exact ⟨xs, s, run, hok, hfirst, hsecond, callbacks_live run hok⟩

/-- The client closes when the reactor waits: its event is fetched, its job scheduled and the first callback deleted, and
    then called. -/
def closesBeforeSchedule : List (Label Unit Unit) :=
  [.wait [.listen 0], .invoke true false 0, .accept 5, .accepted, .finish, .wait [.pipe 0 .client], .take () 0, .schedule (),
    .schedule (), .connect () 6 true, .schedule (), .schedule (), .invoke false false 0]

/-- The client closes when `Monitor` has registered the second callback: it has run when the pointer to it is stored, and
    `ConnectCallback` deletes it again. -/
def closesBeforeStore : List (Label Unit Unit) :=
  [.wait [.listen 0], .invoke true false 0, .accept 5, .accepted, .finish, .take () 0, .schedule (), .wait [.pipe 0 .client],
    .invoke false false 0, .finish, .schedule (), .connect () 6 true, .wait [.pipe 0 .server], .invoke false true 0, .finish,
    .start (), .work (), .work (), .start ()] ++ List.replicate 5 (.work ())

theorem callback_used_after_delete :
    (∃ xs s, (system Unit Unit).Run xs s ∧ xs.map Prod.snd = closesBeforeSchedule ∧ s.fault = some (.invoked 3)) ∧
      ∃ xs s, (system Unit Unit).Run xs s ∧ xs.map Prod.snd = closesBeforeStore ∧ s.fault = some (.deleted 4) := by
  constructor
  · obtain ⟨xs, s, run, hls, hs⟩ := Lts.run_of_exec_any (system Unit Unit) closesBeforeSchedule
      (fun s => decide (s.fault = some (.invoked 3))) (by decide)
    exact ⟨xs, s, run, hls, of_decide_eq_true hs⟩
  · obtain ⟨xs, s, run, hls, hs⟩ := Lts.run_of_exec_any (system Unit Unit) closesBeforeStore
      (fun s => decide (s.fault = some (.deleted 4))) (by decide)
    exact ⟨xs, s, run, hls, of_decide_eq_true hs⟩

end Dans.ProxyJobs
