import Dans.Theorems.ClientSteps

/-! `Dispatcher::Dispatch` with a `ConnectDispatcher`, run by one thread from any state of its queue: which duplicates
    the loop makes, when it makes all that were asked for, and that a purge takes all of them back. -/

namespace Dans.Client

variable {Tid D : Type} {cfg : Config} [DecidableEq Tid] {s : Sys Tid D} {t : Tid} {job : Job (ConnectData D)}

/-- `dups` are the duplicates of a job from the `i`-th on, in the order in which the loop makes them. -/
def Duplicates (job : Job (ConnectData D)) (purgeState k i : Nat) (dups : List (Job (ConnectDataInternal D))) : Prop :=
  ∀ n, n < dups.length → ∃ ip, job.jobData.ipAddresses[i + n]? = some ip ∧
    dups[n]? = some ⟨job.jobId, job.priority + (i + n), k, ⟨ip, job.jobData.objectId, job.jobData.done, purgeState⟩⟩

omit [DecidableEq Tid] in
theorem Duplicates.cons {purgeState k i : Nat} {dups : List (Job (ConnectDataInternal D))} {ip : String}
    (h : Duplicates job purgeState k (i + 1) dups) (hip : job.jobData.ipAddresses[i]? = some ip) :
    Duplicates job purgeState k i
      (⟨job.jobId, job.priority + i, k, ⟨ip, job.jobData.objectId, job.jobData.done, purgeState⟩⟩ :: dups) := by
  intro n hn
  cases n with
  | zero => exact ⟨ip, hip, rfl⟩
  | succ n =>
    obtain ⟨ip', hip', hdup⟩ := h n (by simpa using hn)
    have hsum : i + 1 + n = i + (n + 1) := by omega
    rw [hsum] at hip' hdup
    exact ⟨ip', hip', by rw [List.getElem?_cons_succ, hdup]⟩

theorem Duplicates.mem {purgeState k i : Nat} {dups : List (Job (ConnectDataInternal D))}
    (h : Duplicates job purgeState k i dups) {dup : Job (ConnectDataInternal D)} (hdup : dup ∈ dups) :
    dup.jobId = job.jobId ∧ dup.priority < job.priority + i + dups.length := by
  obtain ⟨n, hn, hget⟩ := List.getElem_of_mem hdup
  obtain ⟨ip, -, hn'⟩ := h n hn
  rw [List.getElem?_eq_getElem hn, hget] at hn'
  cases hn'
  exact ⟨rfl, by dsimp only [Priority]; omega⟩

/-- A turn of the loop, with an address for it: the duplicate goes behind those of its priority, then comes `i++`. -/
theorem duplicates_turn (cfg : Config) {d : Dispatching D} {ip : String} (hpc : s.pc t = .dispatching d)
    (habort : s.abort = none) (hvalid : s.connectQ.Valid) (hmax : d.maxPrio ≤ s.connectQ.maxPrio) (hle : d.prio ≤ d.maxPrio)
    (hip : d.job.jobData.ipAddresses[d.i]? = some ip) :
    ∃ q dup, dup = ⟨d.job.jobId, d.prio, d.duplication,
        ⟨ip, d.job.jobData.objectId, d.job.jobData.done, d.purgeState⟩⟩ ∧
      (system Tid D cfg).next s (.step t) = some (Sys.increment { s with
        connectQ := q, pc := Function.update s.pc t (.dispatching { d with i := d.i + 1, prio := d.prio + 1 }) } d.i) ∧
      q.Valid ∧ q.maxPrio = s.connectQ.maxPrio ∧ q.jobs = s.connectQ.jobs.push dup.priority dup := by
  obtain ⟨dup, hj⟩ : ∃ dup : Job (ConnectDataInternal D), dup = ⟨d.job.jobId, d.prio, d.duplication,
      ⟨ip, d.job.jobData.objectId, d.job.jobData.done, d.purgeState⟩⟩ := ⟨_, rfl⟩
  have hdup : d.duplicate = some dup := by simp [Dispatching.duplicate, hip, hj]
  have hp : dup.priority ≤ s.connectQ.maxPrio := by
    rw [hj]
    exact hle.trans hmax
  obtain ⟨hvalid₁, hjobs₁⟩ := hvalid.enqueue hp
  have hcall : s.connectQ.call (.enqueue dup) =
      .done ((s.connectQ.insertNode dup).insertEntry dup s.connectQ.nextAddr) .void := by
    simp [MultiQueue.call, MultiQueue.enqueue, hp]
  have hturn : s.duplicate t d = s.orFail (((s.goto t (.dispatching { d with i := d.i + 1, prio := d.prio + 1 })).enqueue
      (.connect dup)).map (·.increment d.i)) := by
    unfold Sys.duplicate
    rw [if_pos hle, hdup]
  refine ⟨_, dup, hj, ?_, hvalid₁, by simp, hjobs₁⟩
  simp [system, Sys.next, habort, Sys.step, hpc, hturn, Sys.goto, Sys.enqueue, hcall, MultiQueue.Outcome.result,
    Except.map, Sys.orFail]

/-- The turns that are left of the loop. -/
theorem duplicates_loop (cfg : Config) (n : Nat) : ∀ {s : Sys Tid D} {d : Dispatching D}, s.pc t = .dispatching d →
    s.abort = none → s.connectQ.Valid → d.maxPrio ≤ s.connectQ.maxPrio → d.prio = d.job.priority + d.i →
    d.prio + n = d.maxPrio + 1 → d.i + n ≤ d.job.jobData.ipAddresses.length → d.i + n < 2 ^ 31 →
    ∃ q dups, (system Tid D cfg).execFrom s (List.replicate (n + 1) (.step t)) =
        some { s with connectQ := q, pc := Function.update s.pc t .outside } ∧
      q.Valid ∧ q.maxPrio = s.connectQ.maxPrio ∧ dups.length = n ∧
      Duplicates d.job d.purgeState d.duplication d.i dups ∧ q.jobs = s.connectQ.jobs.pushes (·.priority) dups := by
  induction n with
  | zero =>
    intro s d hpc habort hvalid hmax hprio hend _ _
    refine ⟨s.connectQ, [], ?_, hvalid, rfl, rfl, fun n hn => absurd hn (Nat.not_lt_zero n), rfl⟩
    have hdone : ¬d.prio ≤ d.maxPrio := by
      dsimp only [Priority] at hend ⊢
      omega
    simp [Lts.execFrom, system, Sys.next, habort, Sys.step, hpc, Sys.duplicate, hdone, Sys.goto]
  | succ n ih =>
    intro s d hpc habort hvalid hmax hprio hend haddr hint
    dsimp only [Priority] at hprio hend hmax
    have hle : d.prio ≤ d.maxPrio := by
      dsimp only [Priority]
      omega
    obtain ⟨ip, hip⟩ : ∃ ip, d.job.jobData.ipAddresses[d.i]? = some ip :=
      ⟨_, List.getElem?_eq_getElem (show d.i < d.job.jobData.ipAddresses.length by omega)⟩
    obtain ⟨q₁, dup, hj, hnext, hvalid₁, hmax₁, hjobs₁⟩ := duplicates_turn cfg hpc habort hvalid hmax hle hip
    rw [Sys.increment, if_pos (by omega)] at hnext
    obtain ⟨q, dups, hexec, hvalid', hmax', hlen, hdups, hjobs⟩ := ih (s := { s with
        connectQ := q₁, pc := Function.update s.pc t (.dispatching { d with i := d.i + 1, prio := d.prio + 1 }) })
      (d := { d with i := d.i + 1, prio := d.prio + 1 }) (by simp) habort hvalid₁ (hmax₁ ▸ hmax)
      (by dsimp only [Priority]; omega) (by dsimp only [Priority]; omega) (by dsimp only; omega) (by dsimp only; omega)
    refine ⟨q, dup :: dups, ?_, hvalid', hmax'.trans hmax₁, by simp [hlen], ?_, ?_⟩
    · rw [List.replicate_succ, Lts.execFrom, hnext, Option.bind_some, hexec]
      simp
    · rw [hj, hprio]
      exact Duplicates.cons hdups hip
    · rw [hjobs, Fifo.pushes_cons, ← hjobs₁]

/-- How many jobs there are in the lists up to the lowest priority. -/
def Sys.connects (s : Sys Tid D) : Nat := s.connectQ.jobs.count (Finset.range (s.connectQ.maxPrio + 1)) fun _ => true

/-- `t` is in the loop, or behind it, that `Dispatch` of the job has begun in `s`, and `i` duplicates are in the queue. -/
structure Looping (s : Sys Tid D) (t : Tid) (job : Job (ConnectData D)) (maxPrio i : Nat) (s' : Sys Tid D) : Prop where
  valid : s'.connectQ.Valid
  maxPrio_eq : s'.connectQ.maxPrio = s.connectQ.maxPrio
  connects : s'.connects = s.connects + i
  int : i < 2 ^ 31
  inRange : i = 0 ∨ job.priority + i ≤ maxPrio + 1
  pc : s'.pc t = .outside ∨ ∃ d, s'.pc t = .dispatching d ∧ d.maxPrio = maxPrio ∧ d.i = i ∧ d.prio = job.priority + i

/-- A turn puts one more job into the queue, and the index after it is still an `int`. -/
theorem Looping.turn {s' : Sys Tid D} {maxPrio i : Nat} {d : Dispatching D} {q : MultiQueue (ConnectDataInternal D)}
    {dup : Job (ConnectDataInternal D)} (h : Looping s t job maxPrio i s') (hdmax : d.maxPrio = maxPrio) (hdi : d.i = i)
    (hdprio : d.prio = job.priority + i) (hle : d.prio ≤ d.maxPrio) (hlast : d.maxPrio ≤ s'.connectQ.maxPrio)
    (hdup : dup.priority = d.prio) (hint : d.i + 1 < 2 ^ 31) (hvalid : q.Valid) (hqmax : q.maxPrio = s'.connectQ.maxPrio)
    (hjobs : q.jobs = s'.connectQ.jobs.push dup.priority dup) :
    Looping s t job maxPrio (i + 1) { s' with
      connectQ := q, pc := Function.update s'.pc t (.dispatching { d with i := d.i + 1, prio := d.prio + 1 }) } := by
  have hmem : dup.priority ∈ Finset.range (s.connectQ.maxPrio + 1) := by
    rw [hdup, Finset.mem_range, ← h.maxPrio_eq]
    exact Nat.lt_succ_of_le (hle.trans hlast)
  have hcount := h.connects
  unfold Sys.connects at hcount
  rw [h.maxPrio_eq] at hcount
  dsimp only [Priority] at hdprio hdmax hle
  refine ⟨hvalid, hqmax.trans h.maxPrio_eq, ?_, by omega, Or.inr (by dsimp only [Priority]; omega),
    Or.inr ⟨_, Function.update_self _ _ _, hdmax, congrArg (· + 1) hdi, ?_⟩⟩
  · rw [Sys.connects, hqmax, h.maxPrio_eq, hjobs, Fifo.count_push hmem, hcount]
    exact Nat.add_assoc _ _ _
  · change d.prio + 1 = _
    dsimp only [Priority]
    omega

/-- A step of the thread stops the process or is a turn of the loop, with an index that is still an `int`. -/
theorem Looping.step {s' s'' : Sys Tid D} {maxPrio i : Nat} (h : Looping s t job maxPrio i s')
    (hmax : maxPrio ≤ s.connectQ.maxPrio) (hnext : (system Tid D cfg).next s' (.step t) = some s'')
    (habort : s'.abort = none) (habort' : s''.abort = none) : ∃ i', Looping s t job maxPrio i' s'' := by
  rcases h.pc with hpc | ⟨d, hpc, hdmax, hdi, hdprio⟩
  · simp [system, Sys.next, habort, Sys.step, hpc] at hnext
  by_cases hle : d.prio ≤ d.maxPrio
  · cases hip : d.job.jobData.ipAddresses[d.i]? with
    | none =>
      simp only [system, Sys.next, habort, Sys.step, hpc, Sys.duplicate, if_pos hle, Dispatching.duplicate, hip,
        Option.map_none, Option.isSome_none, Bool.false_eq_true, if_false, Option.some.injEq] at hnext
      rw [← hnext] at habort'
      cases habort'
    | some ip =>
      have hlast : d.maxPrio ≤ s'.connectQ.maxPrio := by
        rw [hdmax, h.maxPrio_eq]
        exact hmax
      obtain ⟨q, dup, hdup, hturn, hvalid, hqmax, hjobs⟩ := duplicates_turn cfg hpc habort h.valid hlast hle hip
      rw [hturn, Sys.increment] at hnext
      split at hnext
      · next hint =>
        cases hnext
        have hprio : dup.priority = d.prio := by rw [hdup]
        exact ⟨i + 1, h.turn hdmax hdi hdprio hle hlast hprio hint hvalid hqmax hjobs⟩
      · cases hnext
        cases habort'
  · simp only [system, Sys.next, habort, Sys.step, hpc, Sys.duplicate, if_neg hle, Option.isSome_none,
      Bool.false_eq_true, if_false, Option.some.injEq] at hnext
    subst hnext
    exact ⟨i, h.valid, h.maxPrio_eq, h.connects, h.int, h.inRange, Or.inl (by simp [Sys.goto])⟩

/-- By induction on the steps of the thread: as long as no check has failed it is in its loop or behind it. -/
theorem Looping.run {s₁ s' : Sys Tid D} {maxPrio n : Nat} (h : Looping s t job maxPrio 0 s₁)
    (hmax : maxPrio ≤ s.connectQ.maxPrio)
    (hexec : (system Tid D cfg).execFrom s₁ (List.replicate n (.step t)) = some s') (habort : s'.abort = none) :
    ∃ i, Looping s t job maxPrio i s' := by
  refine Lts.execFrom_invariant (P := fun s' => s'.abort = none → ∃ i, Looping s t job maxPrio i s') ?_
    (fun _ => ⟨0, h⟩) hexec habort
  intro u l u' hl ih hnext habort'
  cases List.eq_of_mem_replicate hl
  have hrunning : u.abort = none := next_abort (show u.next cfg (.step t) = some u' from hnext)
  obtain ⟨i, hi⟩ := ih hrunning
  exact hi.step hmax hnext hrunning habort'

/-- Without wrap-around, `Dispatch` goes down to the priority asked for or to the lowest one there is. -/
theorem maxPrio_eq {maxPriority p r : Nat} (hp : p ≤ maxPriority) (hr : p + r < 2 ^ 32) :
    Dispatcher.maxPrio maxPriority p r = p + min (maxPriority - p) r := by
  unfold Dispatcher.maxPrio
  rw [Nat.mod_eq_of_lt hr]
  split <;> omega

theorem maxPrio_le (maxPriority p r : Nat) : Dispatcher.maxPrio maxPriority p r ≤ maxPriority := by
  unfold Dispatcher.maxPrio
  split <;> omega

/-- Where the sum wraps, the lowest priority that `Dispatch` goes down to is above that of the job. -/
theorem maxPrio_lt {maxPriority p r : Nat} (hp : p ≤ maxPriority) (hmax : maxPriority < 2 ^ 32) (hr : r < 2 ^ 32)
    (hwrap : 2 ^ 32 ≤ p + r) : Dispatcher.maxPrio maxPriority p r < p := by
  unfold Dispatcher.maxPrio
  split <;> omega

theorem duplication_eq {p k : Nat} (hk : p + k < 2 ^ 32) : Dispatcher.duplication (p + k) p = k := by
  unfold Dispatcher.duplication
  omega

/-- `Dispatch` of the job in `s` has returned in `s'`, and no check has failed: it has made exactly `k + 1` duplicates,
    each with its address and with one new `PurgeState`, and enqueued them in order, and a purge of the id, if it is
    fresh, counts them all and leaves the lists as they were. -/
structure Dispatched (s : Sys Tid D) (t : Tid) (job : Job (ConnectData D)) (k : Nat) (s' : Sys Tid D) : Prop where
  running : s'.abort = none
  returned : s'.pc t = .outside
  enqueued : ∃ dups, dups.length = k + 1 ∧ Duplicates job s.requests.length k 0 dups ∧
    s'.connectQ.jobs = s.connectQ.jobs.pushes (·.priority) dups
  purges : (∀ p, ∀ j ∈ s.connectQ.jobs p, j.jobId ≠ job.jobId) →
    ∃ q, s'.connectQ.call (.purge job.jobId) = .done q (.purged (k + 1)) ∧ q.jobs = s.connectQ.jobs

/-- The state in the loop that `Dispatch` begins. -/
def Sys.looping (s : Sys Tid D) (t : Tid) (job : Job (ConnectData D)) (maxPrio duplication : Nat) : Sys Tid D :=
  { s with
    requests := s.requests ++ [job.jobId]
    pc := Function.update s.pc t (.dispatching ⟨job, s.requests.length, maxPrio, duplication, 0, job.priority⟩) }

/-- Where nothing wraps, `Dispatch` passes its checks and begins the loop with the numbers asked for. -/
theorem dispatch_looping {r k : Nat} (hp : job.priority ≤ cfg.maxPriority .connect)
    (haddr : job.jobData.ipAddresses.length = cfg.maxPriority .connect + 1)
    (hk : k = min (cfg.maxPriority .connect - job.priority) r) (hr : job.priority + r < 2 ^ 32)
    (hlevels : cfg.maxPriority .connect + 1 < 2 ^ 32) :
    s.dispatch cfg t job r = s.looping t job (job.priority + k) k := by
  have hmaxPrio : Dispatcher.maxPrio (cfg.maxPriority .connect) job.priority r = job.priority + k := by
    rw [hk]
    exact maxPrio_eq hp hr
  dsimp only [Priority] at hp hk haddr hlevels
  have hduplication : Dispatcher.duplication (job.priority + k) job.priority = k := duplication_eq (by omega)
  have hroom : ¬(job.jobData.ipAddresses.length ≤ k ∨
      job.jobData.ipAddresses.length ≠ (cfg.maxPriority .connect + 1) % 2 ^ 32) := by
    rw [Nat.mod_eq_of_lt hlevels]
    omega
  unfold Sys.dispatch
  dsimp only
  rw [if_neg (Nat.not_lt_of_le hp), hmaxPrio, hduplication, if_neg hroom]
  rfl

section
variable (hvalid : s.connectQ.Valid) (hmax : s.connectQ.maxPrio = cfg.maxPriority .connect)
  (hp : job.priority ≤ cfg.maxPriority .connect)
  (haddr : job.jobData.ipAddresses.length = cfg.maxPriority .connect + 1) {r k : Nat}
include hvalid hmax hp haddr

/-- The loop makes all of its duplicates where no number leaves its type. -/
theorem dispatched_of_fits (hpc : s.pc t = .outside) (habort : s.abort = none)
    (hk : k = min (cfg.maxPriority .connect - job.priority) r) (hr : job.priority + r < 2 ^ 32)
    (hlevels : cfg.maxPriority .connect + 1 < 2 ^ 32) (hint : k + 1 < 2 ^ 31) :
    ∃ s', (system Tid D cfg).execFrom s (.dispatch t job r :: List.replicate (k + 2) (.step t)) = some s' ∧
      Dispatched s t job k s' := by
  have hdispatch : s.dispatch cfg t job r = s.looping t job (job.priority + k) k :=
    dispatch_looping hp haddr hk hr hlevels
  have hle : job.priority + k ≤ cfg.maxPriority .connect := by
    dsimp only [Priority] at hp hk ⊢
    omega
  dsimp only [Priority] at hle haddr
  have hnext : (system Tid D cfg).next s (.dispatch t job r) = some (s.looping t job (job.priority + k) k) := by
    simp [system, Sys.next, habort, hpc, hdispatch]
  obtain ⟨q, dups, hexec, hvalid', hmax', hlen, hdups, hjobs⟩ := duplicates_loop cfg (k + 1)
    (s := s.looping t job (job.priority + k) k) (t := t)
    (d := ⟨job, s.requests.length, job.priority + k, k, 0, job.priority⟩) (by simp [Sys.looping]) habort hvalid
    (hle.trans_eq hmax.symm) rfl rfl (by dsimp only; omega) (by dsimp only; omega)
  dsimp only at hdups
  have hall : (system Tid D cfg).execFrom s (.dispatch t job r :: List.replicate (k + 2) (.step t)) =
      (system Tid D cfg).execFrom (s.looping t job (job.priority + k) k) (List.replicate (k + 2) (.step t)) := by
    rw [Lts.execFrom, hnext, Option.bind_some]
  refine ⟨_, hall.trans hexec, habort, by simp, ⟨dups, hlen, hdups, hjobs⟩, fun hfresh => ?_⟩
  rw [← hlen]
  refine hvalid'.purge_pushes hjobs ?_ (fun dup hdup => (hdups.mem hdup).1) hfresh
  intro dup hdup
  have hlt := (hdups.mem hdup).2
  rw [hmax', show (s.looping t job (job.priority + k) k).connectQ.maxPrio = _ from hmax]
  dsimp only [Priority] at hlt ⊢
  omega

omit hmax in
/-- A `Dispatch` that fails no check has begun its loop, and `_max_priority + 1` has not wrapped. -/
theorem looping_of_dispatch (habort : (s.dispatch cfg t job r).abort = none) :
    cfg.maxPriority .connect + 1 < 2 ^ 32 ∧
      Looping s t job (Dispatcher.maxPrio (cfg.maxPriority .connect) job.priority r) 0 (s.dispatch cfg t job r) := by
  unfold Sys.dispatch at habort ⊢
  dsimp only at habort ⊢
  rw [if_neg (Nat.not_lt_of_le hp)] at habort ⊢
  split at habort
  · cases habort
  · next hroom =>
    rw [if_neg hroom]
    have hlevels : job.jobData.ipAddresses.length = (cfg.maxPriority .connect + 1) % 2 ^ 32 :=
      not_not.mp fun hne => hroom (Or.inr hne)
    refine ⟨?_, hvalid, rfl, rfl, by decide, Or.inl rfl, Or.inr ⟨_, Function.update_self _ _ _, rfl, rfl, rfl⟩⟩
    rw [← haddr, hlevels]
    exact Nat.mod_lt _ (by decide)

/-- Where the duplicates asked for were made, no number has left its type. -/
theorem fits_of_dispatched (hpc : s.pc t = .outside) (habort : s.abort = none) (hr : r < 2 ^ 32)
    (hk : k = min (cfg.maxPriority .connect - job.priority) r) {n : Nat} {s' : Sys Tid D}
    (hexec : (system Tid D cfg).execFrom s (.dispatch t job r :: List.replicate n (.step t)) = some s')
    (h : Dispatched s t job k s') :
    job.priority + r < 2 ^ 32 ∧ cfg.maxPriority .connect + 1 < 2 ^ 32 ∧ k + 1 < 2 ^ 31 := by
  have hnext : (system Tid D cfg).next s (.dispatch t job r) = some (s.dispatch cfg t job r) := by
    simp [system, Sys.next, habort, hpc]
  rw [Lts.execFrom, hnext, Option.bind_some] at hexec
  have hrunning : (s.dispatch cfg t job r).abort = none := by
    by_contra hstopped
    refine Lts.execFrom_invariant (P := fun s => s.abort ≠ none) (fun _ hs hn => ?_) hstopped hexec h.running
    exact absurd (next_abort hn) hs
  obtain ⟨hlevels, hloop⟩ := looping_of_dispatch hvalid hp haddr hrunning
  have hlast := maxPrio_le (cfg.maxPriority .connect) job.priority r
  obtain ⟨i, hi⟩ := hloop.run (hlast.trans_eq hmax.symm) hexec h.running
  -- The loop has enqueued as many jobs as there are duplicates.
  obtain ⟨dups, hlen, hdups, hjobs⟩ := h.enqueued
  have hcount := hi.connects
  rw [Sys.connects, hi.maxPrio_eq, hjobs, Fifo.count_pushes ?_, List.countP_true, hlen] at hcount
  · have hmade : k + 1 = i := Nat.add_left_cancel hcount
    have hint := hi.int
    have hin := hi.inRange
    dsimp only [Priority] at hp hin
    refine ⟨?_, hlevels, by omega⟩
    by_contra hwrap
    have hlt := maxPrio_lt hp (Nat.lt_of_succ_lt hlevels) hr (by simpa using hwrap)
    omega
  · intro dup hdup
    have hlt := (hdups.mem hdup).2
    rw [Finset.mem_range, hmax]
    dsimp only [Priority] at hp hk hlt ⊢
    omega

/-- `Dispatch` of a job with an address for each priority, from any state of the queue: it returns with exactly the
    duplicates asked for in the queue, and no check failed, if and only if `priority + requested_duplication` and
    `_max_priority + 1` do not wrap and the number of duplicates is an `int`. -/
theorem dispatch_duplicates (hpc : s.pc t = .outside) (habort : s.abort = none) (hr : r < 2 ^ 32)
    (hk : k = min (cfg.maxPriority .connect - job.priority) r) :
    (job.priority + r < 2 ^ 32 ∧ cfg.maxPriority .connect + 1 < 2 ^ 32 ∧ k + 1 < 2 ^ 31) ↔
      ∃ n s', (system Tid D cfg).execFrom s (.dispatch t job r :: List.replicate n (.step t)) = some s' ∧
        Dispatched s t job k s' := by
  constructor
  · rintro ⟨hsum, hlevels, hint⟩
    exact ⟨k + 2, dispatched_of_fits hvalid hmax hp haddr hpc habort hk hsum hlevels hint⟩
  · rintro ⟨n, s', hexec, h⟩
    exact fits_of_dispatched hvalid hmax hp haddr hpc habort hr hk hexec h

end

/-- Three priorities, a job of priority 1 and one duplicate asked for. -/
theorem dispatch_duplicates_two : ∃ n s', (system Unit Nat ⟨fun _ => 2, true⟩).execFrom
      (system Unit Nat ⟨fun _ => 2, true⟩).init
      (.dispatch () ⟨7, 1, 0, ⟨["10.0.0.1", "10.0.0.2", "10.0.0.3"], 3, 5⟩⟩ 1 :: List.replicate n (.step ())) = some s' ∧
    Dispatched (system Unit Nat ⟨fun _ => 2, true⟩).init () ⟨7, 1, 0, ⟨["10.0.0.1", "10.0.0.2", "10.0.0.3"], 3, 5⟩⟩ 1 s' :=
  (@dispatch_duplicates Unit Nat ⟨fun _ => 2, true⟩ _ (system Unit Nat ⟨fun _ => 2, true⟩).init ()
    ⟨7, 1, 0, ⟨["10.0.0.1", "10.0.0.2", "10.0.0.3"], 3, 5⟩⟩ .new rfl (by decide) rfl 1 1 rfl rfl (by decide)
    (by decide)).mp (by decide)

/-- Two priorities, a job of priority 1 and 2³² - 1 duplicates asked for: the sum wraps to 0, and the check of the
    number of addresses stops the process instead of enqueuing one job. -/
theorem dispatch_wraps : ∃ xs s, (system Unit Nat ⟨fun _ => 1, true⟩).Run xs s ∧
    xs.map Prod.snd = [.dispatch () ⟨7, 1, 0, ⟨["10.0.0.1", "10.0.0.2"], 3, 5⟩⟩ (2 ^ 32 - 1)] ∧
    s.abort = some .checkAddresses := by
  obtain ⟨xs, s, run, hls, hs⟩ := Lts.run_of_exec_any (system Unit Nat ⟨fun _ => 1, true⟩)
    [.dispatch () ⟨7, 1, 0, ⟨["10.0.0.1", "10.0.0.2"], 3, 5⟩⟩ (2 ^ 32 - 1)]
    (fun s => decide (s.abort = some .checkAddresses)) (by decide)
  exact ⟨xs, s, run, hls, of_decide_eq_true hs⟩

end Dans.Client
