import Dans.Theorems.Received

/-! What the reads of the response handler amount to: where they write, which object they make of the stream, and that a
    complete object is given to `done`. -/

namespace Dans.Client

variable {Tid D : Type} {cfg : Config}

/-- A thread fetches an object for its only duplicate, up to the header that the server sends. -/
def fetch (header : Protocol) : List (Label Unit Nat) :=
  let ready : ReadyFor := ⟨true, true, 0⟩
  [.dispatch () ⟨7, 0, 0, ⟨["10.0.0.1"], 3, 5⟩⟩ 0, .step (), .step (), .take () .connect 0, .step (), .step (),
    .fire () 0 4 ready, .step (), .step (), .take () .request 0, .step (), .send () true, .step (),
    .fire () 0 4 ready, .step (), .step (), .take () .response 0, .step (), .readHeader () (some header)]

variable [DecidableEq Tid] [Fintype Tid] {s s' : Sys Tid D} {l : Label Tid D} {t : Tid} {k : Duplicate}
  {xs : List (Sys Tid D × Label Tid D)} {r : Reception} {job : Job (ResponseData D)}

/-! ### Bounds -/

/-- A job whose object is there holds what was received. -/
theorem holds_of_has (run : (system Tid D cfg).Run xs s) (has : s.chain.Has (.response job))
    (hobject : job.jobData.object.isSome = true) :
    ∃ r, received xs (StageJob.response job).key = some r ∧ job.jobData.Holds (some r) := by
  have hholds : job.jobData.Holds (received xs (StageJob.response job).key) := (assembled_of_run run).2.live _ has
  obtain ⟨r, hr⟩ := hholds.received hobject
  exact ⟨r, hr, hr ▸ hholds⟩

/-- Every read into an object stays inside it exactly if the start index of the header does: then the offset is at
    most the size, and the count is what is left of the object. -/
theorem reads_inside (run : (system Tid D cfg).Run xs s) (hpc : s.pc t = .reading job)
    (hints : ∀ r, received xs (StageJob.response job).key = some r → r.header.Ints) :
    ∃ r, received xs (StageJob.response job).key = some r ∧
      (0 ≤ r.header.startIdx ∧ r.header.startIdx ≤ r.header.sizeBytes ↔
        job.jobData.index ≤ job.jobData.size ∧ job.jobData.count ≤ job.jobData.size - job.jobData.index) := by
  have hjob : (s.pc t).job = some (.response job) := by rw [hpc]; rfl
  have hobject : job.jobData.object.isSome = true := by
    have hfilled := (inv_of_run run).filled.threads t
    rwa [show s.chain.pc t = .reading job from hpc] at hfilled
  obtain ⟨r, hr, hholds⟩ := holds_of_has run (Or.inr (Or.inr ⟨t, hjob⟩)) hobject
  refine ⟨r, hr, fun hfits => ?_, fun hinside => ?_⟩
  · obtain ⟨-, hindex, hle, hsize⟩ := hholds.fits (hints r hr) hfits
    obtain ⟨-, -, hmax⟩ := hints r hr
    have hannounced : r.header.announced = r.header.sizeBytes.toNat - r.header.startIdx.toNat := rfl
    obtain ⟨hlow, hhigh⟩ := hfits
    rw [ResponseData.count]
    omega
  · by_contra hfits
    exact Nat.not_le_of_lt (hholds.behind (hints r hr) hfits) hinside.1

theorem reads_inside_first : ∃ xs s job, (system Unit Nat ⟨fun _ => 0, true⟩).Run xs s ∧ s.pc () = .reading job ∧
    ∃ r, received xs (StageJob.response job).key = some r ∧
      (0 ≤ r.header.startIdx ∧ r.header.startIdx ≤ r.header.sizeBytes ↔
        job.jobData.index ≤ job.jobData.size ∧ job.jobData.count ≤ job.jobData.size - job.jobData.index) := by
  obtain ⟨ys, x, run, -, hx⟩ := Lts.run_of_exec_any
    ((system Unit Nat ⟨fun _ => 0, true⟩).guarded receive (fun _ => none) fun _ _ _ => True) (fetch ⟨11, 0, 3, 1, 2⟩)
    (fun x => decide (x.1.pc () = .reading ⟨7, 0, 0, ⟨4, 3, 1, some [0, 0], 5, 0⟩⟩ ∧
      x.2 (0, 0) = some ⟨3, ⟨11, 0, 3, 1, 2⟩, []⟩)) (by decide)
  obtain ⟨hpc, hr⟩ := of_decide_eq_true hx
  obtain ⟨xs, run, hhist, -, -⟩ := run.of_guarded
  refine ⟨xs, x.1, _, run, hpc, reads_inside run hpc fun r hreceived => ?_⟩
  rw [hhist] at hr
  cases hr.symm.trans hreceived
  exact ⟨by decide, by decide⟩

/-- A header with start index 3 for an object of 2 bytes: the first read starts behind the object and asks for
    nearly 2⁶⁴ bytes. -/
theorem reads_behind_object : ∃ xs s job r, (system Unit Nat ⟨fun _ => 0, true⟩).Run xs s ∧ s.pc () = .reading job ∧
    received xs (StageJob.response job).key = some r ∧ r.header.Ints ∧ r.header.startIdx = 3 ∧ r.header.sizeBytes = 2 ∧
    job.jobData.size < job.jobData.index ∧ job.jobData.count = 2 ^ 64 - 1 := by
  obtain ⟨ys, x, run, -, hx⟩ := Lts.run_of_exec_any
    ((system Unit Nat ⟨fun _ => 0, true⟩).guarded receive (fun _ => none) fun _ _ _ => True) (fetch ⟨11, 0, 3, 3, 2⟩)
    (fun x => decide (x.1.pc () = .reading ⟨7, 0, 0, ⟨4, 3, 3, some [0, 0], 5, 0⟩⟩ ∧
      x.2 (0, 0) = some ⟨3, ⟨11, 0, 3, 3, 2⟩, []⟩)) (by decide)
  obtain ⟨hpc, hr⟩ := of_decide_eq_true hx
  obtain ⟨xs, run, hhist, -, -⟩ := run.of_guarded
  rw [hhist] at hr
  exact ⟨xs, x.1, _, _, run, hpc, hr, ⟨by decide, by decide⟩, rfl, rfl, by decide, by decide⟩

/-! ### From the last byte to `done` -/

/-- The response job with which a thread goes from the last read to `done`. -/
def Pc.ending : Pc D → Option (Job (ResponseData D))
  | reading job | finished job _ | completed job | delivering job => some job
  | _ => none

/-- A thread is on its way to `done` with the duplicate, `done` was called for it, or the `PurgeState` is set. -/
def Sys.Ends (s : Sys Tid D) (k : Duplicate) : Prop :=
  (∃ t job, (s.pc t).ending = some job ∧ (StageJob.response job).key = k) ∨
    (∃ job ∈ s.delivered, (StageJob.response job).key = k) ∨ s.purged k.1 = true

omit [DecidableEq Tid] [Fintype Tid] in
theorem has_of_ending (h : (s.pc t).ending = some job) : s.chain.Has (.response job) := by
  refine Or.inr (Or.inr ⟨t, ?_⟩)
  show (s.pc t).job = _
  cases hpc : s.pc t <;> rw [hpc] at h <;> simp_all [Pc.ending, Pc.job]

omit [Fintype Tid] in
theorem ends_of_step (h : (s.pc t).ending = some job) (hcomplete : job.jobData.complete = true)
    (hn : s.step cfg t = some s') : s'.Ends (StageJob.response job).key := by
  cases hpc : s.pc t with
  | reading job' => simp [Sys.step, hpc] at hn
  | finished job' closed =>
    rw [hpc] at h
    cases h
    simp only [Sys.step, hpc, hcomplete, ↓reduceIte] at hn
    cases hn
    exact Or.inl ⟨t, job, by simp [Sys.goto, Pc.ending], rfl⟩
  | completed job' =>
    rw [hpc] at h
    cases h
    simp only [Sys.step, hpc] at hn
    split at hn
    · next hset =>
      cases hn
      exact Or.inr (Or.inr hset)
    · cases hn
      exact Or.inr (Or.inr (by simp [StageJob.key, StageJob.purgeState]))
  | delivering job' =>
    rw [hpc] at h
    cases h
    simp only [Sys.step, hpc] at hn
    cases hn
    refine Or.inr (Or.inl ⟨job, ?_, rfl⟩)
    split <;> simp [Sys.fail]
  | _ =>
    rw [hpc] at h
    cases h

omit [Fintype Tid] in
theorem ends_of_read {result : ReadResult} (h : (s.pc t).ending = some job) (hcomplete : job.jobData.complete = true)
    (hn : s.read t result = some s') : s'.Ends (StageJob.response job).key := by
  have hfull : job.jobData.index = job.jobData.size := by simpa [ResponseData.complete] using hcomplete
  unfold Sys.read at hn
  split at hn
  · next job' hpc =>
    rw [hpc] at h
    cases h
    have hinside : ¬job.jobData.size < job.jobData.index := by omega
    rw [if_neg hinside] at hn
    cases result with
    | bytes data =>
      -- There is no room left.
      dsimp only at hn
      split at hn
      · next hdata =>
        have hlen := hdata.2
        rw [hfull, Nat.sub_self] at hlen
        exact absurd (List.length_eq_zero_iff.mp (Nat.le_zero.mp hlen)) hdata.1
      · cases hn
    | wouldBlock | error | closed =>
      cases hn
      exact Or.inl ⟨t, job, by simp [Sys.goto, Pc.ending], rfl⟩
  · cases hn

omit [Fintype Tid] in
/-- A thread does not move the others. -/
theorem pc_of_next (hn : s.next cfg l = some s') (habort : s'.abort = none) (ht : l.thread ≠ t) : s'.pc t = s.pc t := by
  rcases next_turns hn with hstop | ⟨-, hpc⟩ | ⟨c, hpc, -⟩
  · rw [habort] at hstop
    cases hstop
  · rw [hpc]
  · rw [hpc, Function.update_of_ne (Ne.symm ht)]

omit [Fintype Tid] in
/-- From the loop of reads on, a thread takes a step or reads. -/
theorem next_of_ending (h : (s.pc l.thread).ending = some job) (hn : s.next cfg l = some s') :
    s.step cfg l.thread = some s' ∨ ∃ result, l = .read l.thread result ∧ s.read l.thread result = some s' := by
  simp only [Sys.next, next_abort hn, Option.isSome_none, Bool.false_eq_true, ↓reduceIte] at hn
  cases l with
  | step t => exact Or.inl hn
  | read t result => exact Or.inr ⟨result, rfl, hn⟩
  | dispatch t _ _ | take t _ _ | send t _ | readHeader t _ =>
    -- The thread is not where these labels find it.
    simp only [Sys.take, Sys.send, Sys.readHeader] at hn
    split at hn
    · next hpc =>
      rw [Label.thread, hpc] at h
      cases h
    · cases hn
  | fire t _ _ _ =>
    simp only [Sys.fire] at hn
    split at hn
    · next hpc _ =>
      rw [Label.thread, hpc] at h
      cases h
    · cases hn

omit [Fintype Tid] in
/-- A thread with a complete object goes on to `done`, and no other thread stops it. -/
theorem ends_of_next (h : (s.pc t).ending = some job) (hcomplete : job.jobData.complete = true)
    (hn : s.next cfg l = some s') (habort : s'.abort = none) : s'.Ends (StageJob.response job).key := by
  by_cases ht : l.thread = t
  · subst ht
    rcases next_of_ending h hn with hn | ⟨result, -, hn⟩
    · exact ends_of_step h hcomplete hn
    · exact ends_of_read h hcomplete hn
  · exact Or.inl ⟨t, job, by rw [pc_of_next hn habort ht]; exact h, rfl⟩

omit [Fintype Tid] in
/-- A step that receives something for a duplicate leaves its thread in the loop of reads. -/
theorem reads_of_receive {g : Duplicate → Option Reception} (hn : s.next cfg l = some s')
    (hr : receive g s l k = some r) :
    g k = some r ∨ ∃ t job, (StageJob.response job).key = k ∧ s' = s.goto t (.reading job) := by
  have hears := next_hears g hn
  generalize receive g s l = g' at hears hr
  cases hears with
  | @header t job header pc fresh pos goto =>
    by_cases hk : (StageJob.response job).key = k
    · exact Or.inr ⟨t, { job with jobData := job.jobData.begin header }, hk, goto⟩
    · rw [Function.update_of_ne (Ne.symm hk)] at hr
      exact Or.inl hr
  | @bytes t job data pc inside le goto =>
    by_cases hk : (StageJob.response job).key = k
    · exact Or.inr ⟨t, { job with jobData := job.jobData.store data }, hk, goto⟩
    · rw [Function.update_of_ne (Ne.symm hk)] at hr
      exact Or.inl hr
  | silent quiet => exact Or.inl hr

theorem Sys.Ends.next (h : s.Ends k) (run : (system Tid D cfg).Run xs s) (hr : received xs k = some r)
    (hints : r.header.Ints) (hfits : r.header.Fits) (hfull : r.bytes.length = r.header.announced)
    (hn : s.next cfg l = some s') (habort : s'.abort = none) : s'.Ends k := by
  have hstep := (next_chain (inv_of_run run).sound hn).2
  rcases h with ⟨t, job, hending, rfl⟩ | ⟨job, hjob, hkey⟩ | hset
  · have hholds : job.jobData.Holds (received xs (StageJob.response job).key) :=
      (assembled_of_run run).2.live _ (has_of_ending hending)
    rw [hr] at hholds
    exact ends_of_next hending ((hholds.complete_iff hints).mpr ⟨hfits, hfull⟩) hn habort
  · exact Or.inr (Or.inl ⟨job, hstep.keeps_delivered job hjob, hkey⟩)
  · exact Or.inr (Or.inr (hstep.keeps_purged hset))

/-- A duplicate for which all announced bytes have been read ends with `done`, or was purged. -/
theorem ends_of_run (run : (system Tid D cfg).Run xs s) (habort : s.abort = none) :
    ∀ {r}, received xs k = some r → r.header.Ints → r.header.Fits → r.bytes.length = r.header.announced → s.Ends k := by
  induction run with
  | init => exact fun hr => by cases hr
  | @step xs s s' l run hn ih =>
    intro r hr hints hfits hfull
    have hsnoc : received (xs ++ [(s, l)]) = receive (received xs) s l := Lts.history_snoc _ _
    rw [hsnoc] at hr
    rcases reads_of_receive hn hr with hold | ⟨t, job, hkey, rfl⟩
    · exact (ih (next_abort hn) hold hints hfits hfull).next run hold hints hfits hfull hn habort
    · exact Or.inl ⟨t, job, by simp [Sys.goto, Pc.ending], hkey⟩

omit [Fintype Tid] in
/-- What steps of a thread lead to, they lead to from one more of its steps before. -/
theorem exec_cons {P : Sys Tid D → Prop} (hl : l.thread = t) (hn : s.next cfg l = some s') :
    (∃ ls u, (∀ l ∈ ls, l.thread = t) ∧ (system Tid D cfg).execFrom s' ls = some u ∧ P u) →
      ∃ ls u, (∀ l ∈ ls, l.thread = t) ∧ (system Tid D cfg).execFrom s ls = some u ∧ P u := by
  rintro ⟨ls, u, hls, hexec, hP⟩
  refine ⟨l :: ls, u, List.forall_mem_cons.mpr ⟨hl, hls⟩, ?_, hP⟩
  have hnext : (system Tid D cfg).next s l = some s' := hn
  simp [Lts.execFrom, hnext, hexec]

/-- Steps of thread `t` alone lead to a state in which `done` was called with the job. -/
def Delivers (cfg : Config) (s : Sys Tid D) (t : Tid) (job : Job (ResponseData D)) : Prop :=
  ∃ ls s', (∀ l ∈ ls, l.thread = t) ∧ (system Tid D cfg).execFrom s ls = some s' ∧ job ∈ s'.delivered

omit [Fintype Tid] in
theorem Delivers.cons (h : Delivers cfg s' t job) (hl : l.thread = t) (hn : s.next cfg l = some s') :
    Delivers cfg s t job := exec_cons hl hn h

omit [Fintype Tid] in
theorem delivers_of_delivering (hpc : s.pc t = .delivering job) (habort : s.abort = none) : Delivers cfg s t job := by
  have hn : ∃ s', s.next cfg (.step t) = some s' ∧ job ∈ s'.delivered := by
    simp only [Sys.next, habort, Sys.step, hpc]
    refine ⟨_, rfl, ?_⟩
    split <;> simp [Sys.fail]
  obtain ⟨s', hn, hjob⟩ := hn
  exact Delivers.cons ⟨[], s', by simp, rfl, hjob⟩ rfl hn

omit [Fintype Tid] in
theorem delivers_of_completed (hpc : s.pc t = .completed job) (habort : s.abort = none)
    (hset : s.purged job.jobData.purgeState = false) : Delivers cfg s t job := by
  have hn : s.next cfg (.step t) = some { s.goto t (.delivering job) with
      purged := Function.update s.purged job.jobData.purgeState true } := by
    simp [Sys.next, habort, Sys.step, hpc, hset]
  refine Delivers.cons ?_ rfl hn
  exact delivers_of_delivering (Function.update_self ..) habort

omit [Fintype Tid] in
theorem delivers_of_finished {closed : Bool} (hpc : s.pc t = .finished job closed) (habort : s.abort = none)
    (hset : s.purged job.jobData.purgeState = false) (hcomplete : job.jobData.complete = true) :
    Delivers cfg s t job := by
  have hn : s.next cfg (.step t) = some (s.goto t (.completed job)) := by
    simp [Sys.next, habort, Sys.step, hpc, hcomplete]
  refine Delivers.cons ?_ rfl hn
  exact delivers_of_completed (Function.update_self ..) habort hset

omit [Fintype Tid] in
/-- The read that finds no room left returns 0, which ends the loop. -/
theorem delivers_of_reading (hpc : s.pc t = .reading job) (habort : s.abort = none)
    (hset : s.purged job.jobData.purgeState = false) (hcomplete : job.jobData.complete = true) :
    Delivers cfg s t job := by
  have hfull : job.jobData.index = job.jobData.size := by simpa [ResponseData.complete] using hcomplete
  have hn : s.next cfg (.read t .closed) = some (s.goto t (.finished job true)) := by
    simp [Sys.next, habort, Sys.read, hpc, hfull]
  refine Delivers.cons ?_ rfl hn
  exact delivers_of_finished (Function.update_self ..) habort hset hcomplete

omit [Fintype Tid] in
theorem delivers_of_ending (h : (s.pc t).ending = some job) (habort : s.abort = none)
    (hset : s.purged job.jobData.purgeState = false) (hcomplete : job.jobData.complete = true) :
    Delivers cfg s t job := by
  cases hpc : s.pc t with
  | reading job' =>
    rw [hpc] at h
    cases h
    exact delivers_of_reading hpc habort hset hcomplete
  | finished job' closed =>
    rw [hpc] at h
    cases h
    exact delivers_of_finished hpc habort hset hcomplete
  | completed job' =>
    rw [hpc] at h
    cases h
    exact delivers_of_completed hpc habort hset
  | delivering job' =>
    rw [hpc] at h
    cases h
    exact delivers_of_delivering hpc habort
  | _ =>
    rw [hpc] at h
    cases h

/-! ### Every splitting can be read -/

/-- Reads that return the given chunks. -/
def chunks (t : Tid) (datas : List (List UInt8)) : List (Label Tid D) := datas.map fun data => .read t (.bytes data)

/-- The read would block: the job goes through `Monitor`, `ResponseCallback` and the queue back to the thread. -/
def suspends (t : Tid) (i : Nat) (soc : Int) (prio : Priority) : List (Label Tid D) :=
  [.read t .wouldBlock, .step t, .step t, .fire t i soc ⟨true, false, 0⟩, .step t, .step t, .take t .response prio,
    .step t, .step t]

/-- Thread `t` reads for a job that is not purged, and no other job waits at its place in the queue. -/
structure Fetches (cfg : Config) (s : Sys Tid D) (t : Tid) (job : Job (ResponseData D)) : Prop where
  pc : s.pc t = .reading job
  abort : s.abort = none
  fresh : s.purged job.jobData.purgeState = false
  queue : s.responseQ.Valid ∧ s.responseQ.maxPrio = cfg.maxPriority .response
  inRange : job.priority ≤ cfg.maxPriority .response
  empty : s.responseQ.jobs job.priority = []
  flag : s.responseQ.releaseOne job.priority = false

/-- The state with the thread at `c`, given what the reactor and the response queue hold. -/
def Sys.suspended (s : Sys Tid D) (t : Tid) (reg : List (StageJob D)) (q : MultiQueue (ResponseData D)) (c : Pc D) :
    Sys Tid D :=
  { s with registered := reg, responseQ := q, pc := Function.update s.pc t c }

omit [Fintype Tid] in
/-- A job that would block comes back to its thread as it was. -/
theorem Fetches.suspends (h : Fetches cfg s t job) (hobject : job.jobData.object.isSome = true)
    (hinside : job.jobData.index ≤ job.jobData.size) (hmore : job.jobData.complete = false) {soc : Int} (hsoc : 0 ≤ soc) :
    ∃ s', (system Tid D cfg).execFrom s (Client.suspends t s.registered.length soc job.priority) = some s' ∧
      Fetches cfg s' t job ∧ s'.registered = s.registered ∧ s'.delivered = s.delivered := by
  have hmax : job.priority ≤ s.responseQ.maxPrio := h.queue.2.symm ▸ h.inRange
  obtain ⟨q₁, q₂, henq, hdeq, hvalid, hmax₂, hjobs, hflag⟩ := h.queue.1.enqueue_dequeue hmax h.empty h.flag
  have habort := h.abort
  have hfresh := h.fresh
  have herase : (s.registered ++ [StageJob.response job]).eraseIdx s.registered.length = s.registered := by
    rw [List.eraseIdx_append_of_length_le (Nat.le_refl _), Nat.sub_self]
    simp
  have h₁ : s.next cfg (.read t .wouldBlock) = some (s.suspended t s.registered s.responseQ (.finished job false)) := by
    simp [Sys.next, Sys.read, Sys.suspended, Sys.goto, habort, h.pc, Nat.not_lt_of_le hinside]
  have h₂ : (s.suspended t s.registered s.responseQ (.finished job false)).next cfg (.step t) =
      some (s.suspended t s.registered s.responseQ (.monitoring job)) := by
    simp [Sys.next, Sys.step, Sys.suspended, Sys.goto, habort, hmore]
  have h₃ : (s.suspended t s.registered s.responseQ (.monitoring job)).next cfg (.step t) =
      some (s.suspended t (s.registered ++ [.response job]) s.responseQ .outside) := by
    simp [Sys.next, Sys.step, Sys.suspended, Sys.register, Sys.goto, habort]
  have h₄ : (s.suspended t (s.registered ++ [.response job]) s.responseQ .outside).next cfg
      (.fire t s.registered.length soc ⟨true, false, 0⟩) =
      some (s.suspended t s.registered s.responseQ (.called (.response job) soc)) := by
    simp [Sys.next, Sys.fire, Sys.suspended, Sys.goto, habort, herase, ReadyFor.expected]
  have h₅ : (s.suspended t s.registered s.responseQ (.called (.response job) soc)).next cfg (.step t) =
      some (s.suspended t s.registered s.responseQ (.passing (.response job))) := by
    simp [Sys.next, Sys.step, Sys.suspended, Sys.passOn, Sys.goto, habort, StageJob.purgeState, hfresh, hsoc,
      StageJob.forward]
  have h₆ : (s.suspended t s.registered s.responseQ (.passing (.response job))).next cfg (.step t) =
      some (s.suspended t s.registered q₁ .outside) := by
    simp [Sys.next, Sys.step, Sys.suspended, Sys.pass, Sys.goto, habort, StageJob.stage, StageJob.priority,
      Nat.not_lt_of_le h.inRange, Sys.enqueue, henq, MultiQueue.Outcome.result, Except.map, Sys.orFail]
  have h₇ : (s.suspended t s.registered q₁ .outside).next cfg (.take t .response job.priority) =
      some (s.suspended t s.registered q₂ (.taken (.response job))) := by
    simp [Sys.next, Sys.take, Sys.suspended, Sys.goto, habort, Sys.dequeue, hdeq, MultiQueue.Outcome.result,
      MultiQueue.Ret.handed, Except.map]
  have h₈ : (s.suspended t s.registered q₂ (.taken (.response job))).next cfg (.step t) =
      some (s.suspended t s.registered q₂ (.acting (.response job))) := by
    simp [Sys.next, Sys.step, Sys.suspended, Sys.goto, habort, StageJob.purgeState, hfresh]
  have h₉ : (s.suspended t s.registered q₂ (.acting (.response job))).next cfg (.step t) =
      some (s.suspended t s.registered q₂ (.reading job)) := by
    simp [Sys.next, Sys.step, Sys.suspended, Sys.goto, habort, hobject]
  refine ⟨s.suspended t s.registered q₂ (.reading job), ?_, ?_, rfl, rfl⟩
  · simp only [Client.suspends, Lts.execFrom, system, h₁, h₂, h₃, h₄, h₅, h₆, h₇, h₈, h₉, Option.bind_some]
  · exact ⟨by simp [Sys.suspended], habort, hfresh, ⟨hvalid, hmax₂.trans h.queue.2⟩, h.inRange,
      (congrFun hjobs _).trans h.empty, (congrFun hflag _).trans h.flag⟩

omit [Fintype Tid] in
theorem Fetches.chunks {datas : List (List UInt8)} : ∀ {s : Sys Tid D} {job : Job (ResponseData D)} {r : Reception},
    Fetches cfg s t job → job.jobData.Holds (some r) → r.header.Ints → r.header.Fits → (∀ data ∈ datas, data ≠ []) →
    r.bytes.length + datas.flatten.length ≤ r.header.announced →
    ∃ s' job', (system Tid D cfg).execFrom s (Client.chunks t datas) = some s' ∧ Fetches cfg s' t job' ∧
      job'.jobData.Holds (some { r with bytes := r.bytes ++ datas.flatten }) ∧ job'.priority = job.priority ∧
      job'.jobData.purgeState = job.jobData.purgeState ∧ s'.registered = s.registered ∧ s'.delivered = s.delivered := by
  induction datas with
  | nil =>
    intro s job r h hholds _ _ _ _
    exact ⟨s, job, rfl, h, by simpa using hholds, rfl, rfl, rfl, rfl⟩
  | cons data datas ih =>
    intro s job r h hholds hints hfits hne hle
    obtain ⟨hdata, hdatas⟩ := List.forall_mem_cons.mp hne
    rw [List.flatten_cons, List.length_append] at hle
    obtain ⟨-, hindex, -, hsize⟩ := hholds.fits hints hfits
    have hannounced : r.header.announced = r.header.sizeBytes.toNat - r.header.startIdx.toNat := rfl
    have hinside : job.jobData.index ≤ job.jobData.size := by
      obtain ⟨hlow, hhigh⟩ := hfits
      omega
    have hroom : data.length ≤ job.jobData.size - job.jobData.index := by omega
    have hn : (system Tid D cfg).next s (.read t (.bytes data)) =
        some (s.goto t (.reading { job with jobData := job.jobData.store data })) := by
      simp [system, Sys.next, Sys.read, h.abort, h.pc, Nat.not_lt_of_le hinside, hdata, hroom]
    have hnext : Fetches cfg (s.goto t (.reading { job with jobData := job.jobData.store data })) t
        { job with jobData := job.jobData.store data } :=
      ⟨by simp [Sys.goto], h.abort, h.fresh, h.queue, h.inRange, h.empty, h.flag⟩
    obtain ⟨s', job', hexec, hfetches, hholds', hprio, hstate, hreg, hdel⟩ :=
      ih hnext (hholds.store hinside hroom) hints hfits hdatas (by simp only [List.length_append]; omega)
    refine ⟨s', job', ?_, hfetches, by simpa using hholds', hprio, hstate, hreg, hdel⟩
    simpa only [Client.chunks, List.map_cons, Lts.execFrom, hn, Option.bind_some] using hexec

/-- The labels of a splitting: the chunks of the first round, and after each suspension those of the next one. -/
def splitting (t : Tid) (i : Nat) (soc : Int) (prio : Priority) (first : List (List UInt8))
    (rest : List (List (List UInt8))) : List (Label Tid D) :=
  chunks t first ++ rest.flatMap fun datas => suspends t i soc prio ++ chunks t datas

omit [Fintype Tid] in
theorem Fetches.rounds {soc : Int} (hsoc : 0 ≤ soc) {rest : List (List (List UInt8))} :
    ∀ {s : Sys Tid D} {job : Job (ResponseData D)} {r : Reception},
    Fetches cfg s t job → job.jobData.Holds (some r) → r.header.Ints → r.header.Fits →
    (∀ datas ∈ rest, datas ≠ [] ∧ ∀ data ∈ datas, data ≠ []) →
    r.bytes.length + rest.flatten.flatten.length ≤ r.header.announced →
    ∃ s' job', (system Tid D cfg).execFrom s
        (rest.flatMap fun datas => Client.suspends t s.registered.length soc job.priority ++ Client.chunks t datas) =
          some s' ∧
      Fetches cfg s' t job' ∧ job'.jobData.Holds (some { r with bytes := r.bytes ++ rest.flatten.flatten }) ∧
      (StageJob.response job').key = (StageJob.response job).key := by
  induction rest with
  | nil =>
    intro s job r h hholds _ _ _ _
    exact ⟨s, job, rfl, h, by simpa using hholds, rfl⟩
  | cons datas rest ih =>
    intro s job r h hholds hints hfits hne hle
    obtain ⟨⟨hsome, hdatas⟩, hrest⟩ := List.forall_mem_cons.mp hne
    simp only [List.flatten_cons, List.flatten_append, List.length_append] at hle
    have hpos : 0 < datas.flatten.length := by
      obtain ⟨data, datas, rfl⟩ := List.exists_cons_of_ne_nil hsome
      have hdata := List.length_pos_iff.mpr (hdatas data List.mem_cons_self)
      rw [List.flatten_cons, List.length_append]
      omega
    have hmore : job.jobData.complete = false := by
      rw [Bool.eq_false_iff, ne_eq, hholds.complete_iff hints]
      rintro ⟨-, hfull⟩
      omega
    obtain ⟨-, hindex, -, hsize⟩ := hholds.fits hints hfits
    have hannounced : r.header.announced = r.header.sizeBytes.toNat - r.header.startIdx.toNat := rfl
    obtain ⟨s₁, hexec₁, h₁, hreg₁, -⟩ := h.suspends hholds.2.1 (by omega) hmore hsoc
    obtain ⟨s₂, job₂, hexec₂, h₂, hholds₂, hprio₂, hstate₂, hreg₂, -⟩ :=
      h₁.chunks hholds hints hfits hdatas (by omega)
    obtain ⟨s', job', hexec, h', hholds', hkey⟩ := ih h₂ hholds₂ hints hfits hrest (by
      simp only [List.length_append]
      omega)
    refine ⟨s', job', ?_, h', by simpa using hholds', hkey.trans (Prod.ext hstate₂ hprio₂)⟩
    rw [hreg₂, hreg₁, hprio₂] at hexec
    rw [List.flatMap_cons, Lts.execFrom_append, Lts.execFrom_append, hexec₁, Option.bind_some, hexec₂, Option.bind_some]
    exact hexec

/-- What was given to `done` was whole, so all announced bytes were there. -/
theorem full_of_delivered (run : (system Tid D cfg).Run xs s) (hjob : job ∈ s.delivered)
    (hr : received xs (StageJob.response job).key = some r) (hints : r.header.Ints) :
    job.jobData.Holds (some r) ∧ r.header.Fits ∧ r.bytes.length = r.header.announced := by
  have hholds : job.jobData.Holds (received xs (StageJob.response job).key) := (assembled_of_run run).2.delivered job hjob
  obtain ⟨o, ho, hindex⟩ := (inv_of_run run).filled.delivered job hjob
  have hcomplete : job.jobData.complete = true := by simp [ResponseData.complete, ResponseData.size, ho, hindex]
  rw [hr] at hholds
  exact ⟨hholds, (hholds.complete_iff hints).mp hcomplete⟩

/-- Once the announced bytes are there, a job that holds them has the whole object. -/
theorem object_of_full (hholds : job.jobData.Holds (some r)) (hints : r.header.Ints) (hfits : r.header.Fits)
    (hfull : r.bytes.length = r.header.announced) : job.jobData.object = some (r.header.object r.bytes) := by
  rw [(hholds.fits hints hfits).1, Protocol.filled_of_announced hfull]

theorem holds_of_ending (run : (system Tid D cfg).Run xs s) (hending : (s.pc t).ending = some job)
    (hkey : (StageJob.response job).key = k) (hr : received xs k = some r) : job.jobData.Holds (some r) := by
  rw [← hr, ← hkey]
  exact (assembled_of_run run).2.live _ (has_of_ending hending)

/-- The winner of a full reception was given to `done`, or the next step of its thread does so. -/
theorem delivers_of_winner (run : (system Tid D cfg).Run xs s) (hr : received xs k = some r) (hints : r.header.Ints)
    (hfits : r.header.Fits) (hfull : r.bytes.length = r.header.announced) (habort : s.abort = none)
    (hwon : s.chain.Winner k) : ∃ job, (StageJob.response job).key = k ∧
      job.jobData.object = some (r.header.object r.bytes) ∧ (job ∈ s.delivered ∨ ∃ t, Delivers cfg s t job) := by
  rcases hwon with ⟨t, job, hpc, hkey⟩ | ⟨job, hjob, hkey⟩
  · have hpc : s.pc t = .delivering job := hpc
    have hending : (s.pc t).ending = some job := by rw [hpc]; rfl
    exact ⟨job, hkey, object_of_full (holds_of_ending run hending hkey hr) hints hfits hfull,
      Or.inr ⟨t, delivers_of_delivering hpc habort⟩⟩
  · subst hkey
    exact ⟨job, rfl, object_of_full (full_of_delivered run hjob hr hints).1 hints hfits hfull, Or.inl hjob⟩

/-- A full reception is given to `done`, unless another duplicate has won. -/
theorem delivers_of_full (run : (system Tid D cfg).Run xs s) (hr : received xs k = some r) (hints : r.header.Ints)
    (hfits : r.header.Fits) (hfull : r.bytes.length = r.header.announced) (habort : s.abort = none)
    (hpurged : s.purged k.1 = true → s.chain.Winner k) : ∃ job, (StageJob.response job).key = k ∧
      job.jobData.object = some (r.header.object r.bytes) ∧ (job ∈ s.delivered ∨ ∃ t, Delivers cfg s t job) := by
  by_cases hset : s.purged k.1 = true
  · exact delivers_of_winner run hr hints hfits hfull habort (hpurged hset)
  · rcases ends_of_run run habort hr hints hfits hfull with ⟨t, job, hending, hkey⟩ | ⟨job, hjob, hkey⟩ | hset'
    · have hholds := holds_of_ending run hending hkey hr
      have hfresh : s.purged job.jobData.purgeState = false := by
        rw [← hkey] at hset
        exact Bool.eq_false_of_not_eq_true hset
      have hcomplete := (hholds.complete_iff hints).mpr ⟨hfits, hfull⟩
      exact ⟨job, hkey, object_of_full hholds hints hfits hfull,
        Or.inr ⟨t, delivers_of_ending hending habort hfresh hcomplete⟩⟩
    · exact delivers_of_winner run hr hints hfits hfull habort (Or.inr ⟨job, hjob, hkey⟩)
    · exact absurd hset' hset

/-- The object does not depend on how the stream was split: `done` gets the zeros and announced bytes of a header
    that fits, and only if all of them were read; once they are, and unless another duplicate has set the
    `PurgeState`, the steps of one thread call it; and every splitting of the missing bytes into chunks, with
    suspensions between the rounds, can be read. -/
theorem reassembles (run : (system Tid D cfg).Run xs s) (hr : received xs k = some r) (hints : r.header.Ints)
    (hfits : 0 ≤ r.header.startIdx ∧ r.header.startIdx ≤ r.header.sizeBytes) :
    (∀ job ∈ s.delivered, (StageJob.response job).key = k →
      r.header.announced ≤ r.bytes.length ∧ job.jobData.object = some (r.header.object r.bytes)) ∧
    (r.header.announced ≤ r.bytes.length → s.abort = none → (s.purged k.1 = true → s.chain.Winner k) →
      ∃ job, (StageJob.response job).key = k ∧ job.jobData.object = some (r.header.object r.bytes) ∧
        (job ∈ s.delivered ∨ ∃ t, Delivers cfg s t job)) ∧
    (∀ t job soc first rest, Fetches cfg s t job → (StageJob.response job).key = k → 0 ≤ soc →
      (∀ data ∈ first, data ≠ []) → (∀ datas ∈ rest, datas ≠ [] ∧ ∀ data ∈ datas, data ≠ []) →
      r.bytes.length + first.flatten.length + rest.flatten.flatten.length = r.header.announced →
      ∃ s' job', (system Tid D cfg).execFrom s (splitting t s.registered.length soc job.priority first rest) = some s' ∧
        (StageJob.response job').key = k ∧
        job'.jobData.object = some (r.header.object (r.bytes ++ first.flatten ++ rest.flatten.flatten)) ∧
        Delivers cfg s' t job') := by
  refine ⟨?_, ?_, ?_⟩
  · rintro job hjob rfl
    obtain ⟨hholds, -, hfull⟩ := full_of_delivered run hjob hr hints
    exact ⟨Nat.le_of_eq hfull.symm, object_of_full hholds hints hfits hfull⟩
  · intro hle habort hpurged
    have hfull := Nat.le_antisymm (received_le_announced run hr hints hfits) hle
    exact delivers_of_full run hr hints hfits hfull habort hpurged
  · intro t job soc first rest h hkey hsoc hfirst hrest hlen
    have hending : (s.pc t).ending = some job := by rw [h.pc]; rfl
    have hholds := holds_of_ending run hending hkey hr
    obtain ⟨s₁, job₁, hexec₁, h₁, hholds₁, hprio₁, hstate₁, hreg₁, -⟩ := h.chunks hholds hints hfits hfirst (by omega)
    obtain ⟨s', job', hexec, h', hholds', hkey'⟩ := h₁.rounds hsoc hholds₁ hints hfits hrest (by
      simp only [List.length_append]
      omega)
    have hfull : (r.bytes ++ first.flatten ++ rest.flatten.flatten).length = r.header.announced := by
      simp only [List.length_append]
      omega
    refine ⟨s', job', ?_, ?_, object_of_full hholds' hints hfits hfull, ?_⟩
    · rw [splitting, Lts.execFrom_append, hexec₁, Option.bind_some, ← hreg₁, ← hprio₁]
      exact hexec
    · exact hkey'.trans ((Prod.ext hstate₁ hprio₁).trans hkey)
    · exact delivers_of_reading h'.pc h'.abort h'.fresh ((hholds'.complete_iff hints).mpr ⟨hfits, hfull⟩)

/-- Four bytes from index 1 on: one was read, the second is read next, and the third after a suspension. -/
theorem reassembles_three_chunks : ∃ xs s s' job, (system Unit Nat ⟨fun _ => 0, true⟩).Run xs s ∧
    received xs (0, 0) = some ⟨3, ⟨11, 0, 3, 1, 4⟩, [8]⟩ ∧
    (system Unit Nat ⟨fun _ => 0, true⟩).execFrom s (splitting () 0 4 0 [[9]] [[[10]]]) = some s' ∧
    job.jobData.object = some [0, 8, 9, 10] ∧ Delivers ⟨fun _ => 0, true⟩ s' () job := by
  obtain ⟨ys, x, run, -, hx⟩ := Lts.run_of_exec_any
    ((system Unit Nat ⟨fun _ => 0, true⟩).guarded receive (fun _ => none) fun _ _ _ => True)
    (fetch ⟨11, 0, 3, 1, 4⟩ ++ [.read () (.bytes [8])])
    (fun x => decide (x.1.pc () = .reading ⟨7, 0, 0, ⟨4, 3, 2, some [0, 8, 0, 0], 5, 0⟩⟩ ∧
      x.2 (0, 0) = some ⟨3, ⟨11, 0, 3, 1, 4⟩, [8]⟩ ∧ x.1.abort = none ∧ x.1.purged 0 = false ∧
      x.1.responseQ.jobs 0 = [] ∧ x.1.responseQ.releaseOne 0 = false ∧ x.1.registered = [])) (by decide)
  obtain ⟨hpc, hr, habort, hfresh, hempty, hflag, hreg⟩ := of_decide_eq_true hx
  obtain ⟨xs, run, hhist, -, -⟩ := run.of_guarded
  rw [hhist] at hr
  have hfetches : Fetches ⟨fun _ => 0, true⟩ x.1 () ⟨7, 0, 0, ⟨4, 3, 2, some [0, 8, 0, 0], 5, 0⟩⟩ :=
    ⟨hpc, habort, hfresh, (inv_of_run run).sound.response, le_rfl, hempty, hflag⟩
  obtain ⟨-, -, hsplit⟩ := reassembles run hr ⟨by decide, by decide⟩ ⟨by decide, by decide⟩
  obtain ⟨s', job, hexec, -, hobject, hdelivers⟩ :=
    hsplit () _ 4 [[9]] [[[10]]] hfetches rfl (by decide) (by decide) (by decide) (by decide)
  rw [hreg] at hexec
  exact ⟨xs, x.1, s', job, run, hr, hexec, hobject, hdelivers⟩

end Dans.Client
