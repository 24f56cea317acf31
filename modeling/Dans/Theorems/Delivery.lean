import Dans.Theorems.Places

/-! At most one delivery for each request of the client chain: `done` is called by the one duplicate that sets the
    `PurgeState` of its request, with a whole object, and only then are the others discarded. -/

namespace Dans.Client
open Tally

variable {Tid D : Type} {cfg : Config}

variable [Fintype Tid] [DecidableEq Tid] {c c' : Chain Tid D}

/-! ### Winners -/

/-- The thread is about to call `done` for a duplicate of the request. -/
def Pc.wins (r : Nat) : Pc D → Nat
  | delivering job => if job.jobData.purgeState == r then 1 else 0
  | _ => 0

/-- A `PurgeState` is set exactly when one duplicate of its request has called `done` or is about to. -/
def Won (c : Chain Tid D) : Prop :=
  ∀ r, tally (Pc.wins r) c.pc + c.delivered.countP (·.jobData.purgeState == r) = if c.purged r then 1 else 0

omit [Fintype Tid] [DecidableEq Tid] in
theorem Works.wins {purged : Nat → Bool} {p p' : Pc D} (h : Works purged p p') (r : Nat) : p.wins r = 0 ∧ p'.wins r = 0 := by
  cases h <;> exact ⟨rfl, rfl⟩

omit [Fintype Tid] [DecidableEq Tid] in
theorem Registers.wins {p : Pc D} {j : StageJob D} (h : Registers p j) (r : Nat) : p.wins r = 0 := by
  cases h <;> rfl

omit [Fintype Tid] [DecidableEq Tid] in
theorem Drops.wins {purged : Nat → Bool} {p : Pc D} (h : Drops purged p) (r : Nat) : p.wins r = 0 := by
  cases h <;> rfl

theorem Won.step (h : Won c) (hs : c.Step cfg c') : Won c' := by
  intro r
  have hr := h r
  have move : ∀ t p, tally (Pc.wins r) (Function.update c.pc t p) + (c.pc t).wins r =
      tally (Pc.wins r) c.pc + p.wins r := fun t p => tally_update (Pc.wins r) c.pc t p
  have quiet : ∀ t p, (c.pc t).wins r = 0 → p.wins r = 0 → tally (Pc.wins r) (Function.update c.pc t p) +
      c.delivered.countP (·.jobData.purgeState == r) = if c.purged r then 1 else 0 := by
    intro t p hc hp
    have ht := move t p
    omega
  cases hs with
  | stay | lose => exact hr
  | dispatch pc _ | duplicate pc _ _ _ | dispatched pc | take pc _ _ | fire _ pc _ | pass pc _ =>
    exact quiet _ _ (by rw [pc]; rfl) rfl
  | work works => exact quiet _ _ (works.wins r).1 (works.wins r).2
  | register registers => exact quiet _ _ (registers.wins r) rfl
  | drop drops => exact quiet _ _ (drops.wins r) rfl
  | sweep pc next => exact quiet _ _ (by rw [pc]; rfl) (by rcases next with rfl | ⟨stage', rfl⟩ <;> rfl)
  | @win t job pc fresh =>
    have ht := move t (.delivering job)
    rw [pc] at ht
    simp only [Pc.wins] at ht
    by_cases hjob : job.jobData.purgeState = r
    · subst hjob
      simp only [fresh, beq_self_eq_true, if_true, Bool.false_eq_true, if_false] at hr ht
      simp only [Function.update_self, if_true]
      omega
    · simp only [beq_iff_eq, hjob, if_false] at ht
      simp only [Function.update_of_ne (Ne.symm hjob)]
      omega
  | @deliver t job pc =>
    have ht := move t (.sweeping .connect job.jobId)
    rw [pc] at ht
    simp only [Pc.wins] at ht
    simp only [List.countP_append, List.countP_singleton]
    omega

omit [DecidableEq Tid] in
theorem Won.purged_of_delivering (h : Won c) {t : Tid} {job : Job (ResponseData D)} (pc : c.pc t = .delivering job) :
    c.purged job.jobData.purgeState = true := by
  have hr := h job.jobData.purgeState
  have ht := le_tally (Pc.wins job.jobData.purgeState) c.pc t
  rw [pc] at ht
  simp only [Pc.wins, beq_self_eq_true, if_true] at ht
  by_contra hset
  rw [if_neg hset] at hr
  omega

/-- The duplicate has called `done`, or its thread is about to. -/
def Chain.Winner (c : Chain Tid D) (k : Duplicate) : Prop :=
  (∃ t job, c.pc t = .delivering job ∧ (StageJob.response job).key = k) ∨
    ∃ job ∈ c.delivered, (StageJob.response job).key = k

theorem Won.winner (h : Won c) {r : Nat} (hset : c.purged r = true) : ∃! p, c.Winner (r, p) := by
  have hr := h r
  rw [if_pos hset] at hr
  have hdelivering : ∀ {t : Tid} {job : Job (ResponseData D)}, c.pc t = .delivering job → job.jobData.purgeState = r →
      (c.pc t).wins r = 1 := by
    intro t job pc hjob
    rw [pc]
    simp [Pc.wins, hjob]
  have hcounted : ∀ {job : Job (ResponseData D)}, job ∈ c.delivered → job.jobData.purgeState = r →
      0 < c.delivered.countP (·.jobData.purgeState == r) :=
    fun hmem hjob => List.countP_pos_iff.mpr ⟨_, hmem, beq_iff_eq.mpr hjob⟩
  obtain ⟨p, hp⟩ : ∃ p, c.Winner (r, p) := by
    by_cases hpos : 0 < tally (Pc.wins r) c.pc
    · obtain ⟨t, ht⟩ := exists_of_tally_pos hpos
      cases pc : c.pc t with
      | delivering job =>
        rw [pc] at ht
        have hjob : job.jobData.purgeState = r := by
          by_contra hne
          simp [Pc.wins, hne] at ht
        exact ⟨job.priority, Or.inl ⟨t, job, pc, Prod.ext hjob rfl⟩⟩
      | _ =>
        rw [pc] at ht
        cases ht
    · obtain ⟨job, hmem, hjob⟩ := List.countP_pos_iff.mp (show 0 < c.delivered.countP (·.jobData.purgeState == r) by omega)
      exact ⟨job.priority, Or.inr ⟨job, hmem, Prod.ext (beq_iff_eq.mp hjob) rfl⟩⟩
  refine ⟨p, hp, fun p' hp' => ?_⟩
  rcases hp with ⟨t, job, pc, hkey⟩ | ⟨job, hmem, hkey⟩ <;> rcases hp' with ⟨u, job', pc', hkey'⟩ | ⟨job', hmem', hkey'⟩ <;>
    obtain ⟨hjob, rfl⟩ := Prod.ext_iff.mp hkey <;> obtain ⟨hjob', rfl⟩ := Prod.ext_iff.mp hkey'
  · by_cases heq : u = t
    · subst heq
      cases pc.symm.trans pc'
      rfl
    · have htwo := add_le_tally (Pc.wins r) c.pc heq
      rw [hdelivering pc hjob, hdelivering pc' hjob'] at htwo
      omega
  · have hone := le_tally (Pc.wins r) c.pc t
    have hpos := hcounted hmem' hjob'
    rw [hdelivering pc hjob] at hone
    omega
  · have hone := le_tally (Pc.wins r) c.pc u
    have hpos := hcounted hmem hjob
    rw [hdelivering pc' hjob'] at hone
    omega
  · rw [KeyedList.eq_of_countP_le_one (p := (·.jobData.purgeState == r)) (by omega) hmem hmem' (beq_iff_eq.mpr hjob)
      (beq_iff_eq.mpr hjob')]

/-! ### Complete objects -/

/-- A job has its object once the header is read, and the whole of it from `SetPurged` on. -/
def Pc.filled : Pc D → Bool
  | reading job | finished job _ | monitoring job => job.jobData.object.isSome
  | completed job | delivering job => job.jobData.object.isSome && job.jobData.complete
  | _ => true

/-- `done` is called with whole objects only. -/
structure Filled (c : Chain Tid D) : Prop where
  threads : ∀ t, (c.pc t).filled = true
  delivered : ∀ job ∈ c.delivered, ∃ o, job.jobData.object = some o ∧ job.jobData.index = o.length

omit [Fintype Tid] [DecidableEq Tid] in
theorem Works.filled {purged : Nat → Bool} {p p' : Pc D} (h : Works purged p p') (hp : p.filled = true) :
    p'.filled = true := by
  cases h with
  | header data _ object => exact object
  | read bytes => simpa [Pc.filled, ResponseData.store] using hp
  | complete hcomplete =>
    simp only [Pc.filled, hcomplete, Bool.and_true]
    exact hp
  | stop _ | monitor => exact hp
  | act _ | send | pass _ => rfl

omit [Fintype Tid] in
theorem Filled.step (h : Filled c) (hs : c.Step cfg c') : Filled c' := by
  have move : ∀ (t : Tid) {p : Pc D}, p.filled = true → ∀ u, (Function.update c.pc t p u).filled = true := by
    intro t p hp u
    rw [Function.update_apply]
    split
    · exact hp
    · exact h.threads u
  cases hs with
  | stay => exact h
  | lose => exact ⟨h.threads, h.delivered⟩
  | dispatch _ _ | duplicate _ _ _ _ | dispatched _ | take _ _ _ | register _ | fire _ _ _ | drop _ | pass _ _ =>
    exact ⟨move _ rfl, h.delivered⟩
  | sweep _ next => exact ⟨move _ (by rcases next with rfl | ⟨stage', rfl⟩ <;> rfl), h.delivered⟩
  | work works => exact ⟨move _ (works.filled (h.threads _)), h.delivered⟩
  | @win t job pc _ =>
    have hjob := h.threads t
    rw [pc] at hjob
    exact ⟨move t hjob, h.delivered⟩
  | @deliver t job pc =>
    have hjob := h.threads t
    rw [pc] at hjob
    simp only [Pc.filled, Bool.and_eq_true] at hjob
    obtain ⟨hobject, hcomplete⟩ := hjob
    obtain ⟨o, ho⟩ := Option.isSome_iff_exists.mp hobject
    refine ⟨move t rfl, fun job' hmem => ?_⟩
    rcases List.mem_append.mp hmem with hmem | hmem
    · exact h.delivered job' hmem
    · rw [List.mem_singleton.mp hmem]
      exact ⟨o, ho, by simpa [ResponseData.complete, ResponseData.size, ho] using hcomplete⟩

/-! ### Ids -/

/-- The job has the id of the request that its `PurgeState` was made for. -/
def Belongs (requests : List JobId) (j : StageJob D) : Prop := requests[j.purgeState]? = some j.jobId

/-- What a thread holds belongs to its request, and an id is swept only when its `PurgeState` is set. -/
def Pc.Issued (requests : List JobId) (purged : Nat → Bool) (p : Pc D) : Prop :=
  match p with
  | .dispatching d => requests[d.purgeState]? = some d.job.jobId
  | .sweeping _ id => ∃ r, requests[r]? = some id ∧ purged r = true
  | p => ∀ j, p.job = some j → Belongs requests j

structure Issued (c : Chain Tid D) : Prop where
  queued : c.queued.All (Belongs c.requests)
  registered : ∀ j ∈ c.registered, Belongs c.requests j
  threads : ∀ t, (c.pc t).Issued c.requests c.purged

omit [Fintype Tid] [DecidableEq Tid] in
theorem issued_of_job {requests : List JobId} {purged : Nat → Bool} {p : Pc D} {j : StageJob D} (h : p.job = some j) :
    p.Issued requests purged ↔ Belongs requests j := by
  cases p <;> simp_all [Pc.job, Pc.Issued]

omit [Fintype Tid] [DecidableEq Tid] in
theorem Pc.Issued.outside {requests : List JobId} {purged : Nat → Bool} : Pc.Issued requests purged (.outside : Pc D) := by
  simp [Pc.Issued, Pc.job]

omit [Fintype Tid] [DecidableEq Tid] in
theorem Pc.Issued.mono {requests requests' : List JobId} {purged purged' : Nat → Bool} {p : Pc D}
    (h : p.Issued requests purged) (hreq : ∀ (r : Nat) id, requests[r]? = some id → requests'[r]? = some id)
    (hset : ∀ r, purged r = true → purged' r = true) : p.Issued requests' purged' := by
  cases p with
  | dispatching d => exact hreq _ _ h
  | sweeping stage id =>
    obtain ⟨r, hr, hp⟩ := h
    exact ⟨r, hreq _ _ hr, hset r hp⟩
  | _ => exact fun j hj => hreq _ _ (h j hj)

omit [Fintype Tid] in
theorem issued_update {requests : List JobId} {purged : Nat → Bool} {pc : Tid → Pc D} {t : Tid} {p : Pc D}
    (h : ∀ u, (pc u).Issued requests purged) (hp : p.Issued requests purged) :
    ∀ u, (Function.update pc t p u).Issued requests purged := by
  intro u
  rw [Function.update_apply]
  split
  · exact hp
  · exact h u

theorem Issued.step (h : Issued c) (won : Won c) (hs : c.Step cfg c') : Issued c' := by
  have held : ∀ {t : Tid} {j : StageJob D}, (c.pc t).job = some j → Belongs c.requests j :=
    fun {t j} hj => (issued_of_job hj).mp (h.threads t)
  cases hs with
  | stay => exact h
  | @dispatch t d pc fresh =>
    have hreq : ∀ (r : Nat) id, c.requests[r]? = some id → (c.requests ++ [d.job.jobId])[r]? = some id := by
      intro r id hr
      rw [List.getElem?_append_left (List.getElem?_eq_some_iff.mp hr).1, hr]
    exact ⟨fun x j hj => hreq _ _ (h.queued x j hj), fun j hj => hreq _ _ (h.registered j hj),
      issued_update (fun u => (h.threads u).mono hreq fun _ => id) (by simp [Pc.Issued, fresh])⟩
  | @duplicate t d job pc le dup list =>
    have hd : c.requests[d.purgeState]? = some d.job.jobId := by
      have ht := h.threads t
      rwa [pc] at ht
    obtain ⟨ip, -, rfl⟩ := Option.map_eq_some_iff.mp dup
    exact ⟨h.queued.push hd, h.registered, issued_update h.threads hd⟩
  | @dispatched t d pc => exact ⟨h.queued, h.registered, issued_update h.threads .outside⟩
  | @take t stage prio j queued pc pops list =>
    obtain ⟨hj, hqueued⟩ := h.queued.pops pops
    exact ⟨hqueued, h.registered, issued_update h.threads ((issued_of_job rfl).mpr hj)⟩
  | @work t p works =>
    obtain ⟨j, j', hj, hj', hkey, hid⟩ := works.job
    have hps : j'.purgeState = j.purgeState := congrArg Prod.fst hkey
    have hbelongs : Belongs c.requests j' := by
      rw [Belongs, hps, hid]
      exact held hj
    exact ⟨h.queued, h.registered, issued_update h.threads ((issued_of_job hj').mpr hbelongs)⟩
  | @register t j registers =>
    refine ⟨h.queued, fun j' hj' => ?_, issued_update h.threads .outside⟩
    rcases List.mem_append.mp hj' with hj' | hj'
    · exact h.registered j' hj'
    · rw [List.mem_singleton.mp hj']
      exact held registers.job
  | @fire t i j soc pc reg =>
    exact ⟨h.queued, fun j' hj' => h.registered j' (List.mem_of_mem_eraseIdx hj'),
      issued_update h.threads ((issued_of_job rfl).mpr (h.registered j (List.mem_of_getElem? reg)))⟩
  | lose => exact ⟨h.queued, fun j' hj' => h.registered j' (List.mem_of_mem_eraseIdx hj'), h.threads⟩
  | @drop t drops => exact ⟨h.queued, h.registered, issued_update h.threads .outside⟩
  | @win t job pc fresh =>
    have hset : ∀ r, c.purged r = true → Function.update c.purged job.jobData.purgeState true r = true := by
      intro r hr
      rw [Function.update_apply]
      split
      · rfl
      · exact hr
    have hjob : (c.pc t).job = some (.response job) := by rw [pc]; rfl
    exact ⟨h.queued, h.registered, issued_update (fun u => (h.threads u).mono (fun _ _ => id) hset)
      ((issued_of_job rfl).mpr (held hjob))⟩
  | @deliver t job pc =>
    have hjob : (c.pc t).job = some (.response job) := by rw [pc]; rfl
    exact ⟨h.queued, h.registered, issued_update h.threads ⟨_, held hjob, won.purged_of_delivering pc⟩⟩
  | @sweep t stage id p pc next =>
    have hid : ∃ r, c.requests[r]? = some id ∧ c.purged r = true := by
      have ht := h.threads t
      rwa [pc] at ht
    have hp : p.Issued c.requests c.purged := by
      rcases next with rfl | ⟨stage', rfl⟩
      · exact .outside
      · exact hid
    refine ⟨fun x j hj => h.queued x j ?_, h.registered, issued_update h.threads hp⟩
    dsimp only [sweepStage] at hj
    split at hj
    · exact (List.mem_filter.mp hj).1
    · exact hj
  | @pass t j pc list =>
    have hj : (c.pc t).job = some j := by rw [pc]; rfl
    exact ⟨h.queued.push (held hj), h.registered, issued_update h.threads .outside⟩

/-! ### Discarded duplicates -/

/-- The step discards the duplicate as purged: by a test of its `PurgeState`, or by the purge of a queue. -/
inductive Discards (s : Sys Tid D) : Label Tid D → Duplicate → Prop where
  | taken {t : Tid} {j : StageJob D} (pc : s.pc t = .taken j) (set : s.purged j.purgeState = true) :
      Discards s (.step t) j.key
  | called {t : Tid} {j : StageJob D} {soc : Int} (pc : s.pc t = .called j soc) (set : s.purged j.purgeState = true)
      (socket : 0 ≤ soc) : Discards s (.step t) j.key
  | swept {t : Tid} {stage : Stage} {p : Priority} {j : StageJob D} (pc : s.pc t = .sweeping stage j.jobId)
      (mem : j ∈ s.queued (stage, p)) : Discards s (.step t) j.key

variable {s s' : Sys Tid D} {l : Label Tid D} {k : Duplicate}

omit [Fintype Tid] [DecidableEq Tid] in
theorem Discards.purged (h : Discards s l k) (issued : Issued s.chain) (hids : s.requests.Nodup) : s.purged k.1 = true := by
  cases h with
  | taken _ set => exact set
  | called _ set _ => exact set
  | @swept t stage p j pc mem =>
    have hj : s.requests[j.purgeState]? = some j.jobId := issued.queued (stage, p) j mem
    obtain ⟨r, hr, hset⟩ : ∃ r, s.requests[r]? = some j.jobId ∧ s.purged r = true := by
      have ht := issued.threads t
      rwa [show s.chain.pc t = .sweeping stage j.jobId from pc] at ht
    obtain ⟨hlt, -⟩ := List.getElem?_eq_some_iff.mp hr
    rw [(List.getElem?_inj hlt hids).mp (hr.trans hj.symm)] at hset
    exact hset

/-! ### Runs -/

structure Inv (cfg : Config) (s : Sys Tid D) : Prop where
  sound : s.Sound cfg
  unique : Unique cfg s.chain
  won : Won s.chain
  filled : Filled s.chain
  issued : Issued s.chain

variable {xs : List (Sys Tid D × Label Tid D)}

theorem Inv.init : Inv cfg (system Tid D cfg).init where
  sound := ⟨⟨.new, rfl⟩, ⟨.new, rfl⟩, ⟨.new, rfl⟩⟩
  unique k := by
    have hpc : tally (·.holds k) (fun _ : Tid => (Pc.outside : Pc D)) = 0 := Finset.sum_eq_zero fun _ _ => rfl
    have hqueued : (system Tid D cfg).init.queued.count cfg.lists (·.key == k) = 0 :=
      Finset.sum_eq_zero fun x _ => by obtain ⟨stage, p⟩ := x; cases stage <;> rfl
    have hcopies : (system Tid D cfg).init.chain.copies cfg k = 0 := by
      rw [Chain.copies]
      exact Nat.add_eq_zero_iff.mpr ⟨Nat.add_eq_zero_iff.mpr ⟨hqueued, rfl⟩, hpc⟩
    rw [hcopies]
    exact Nat.zero_le _
  won r := by
    have hpc : tally (Pc.wins r) (fun _ : Tid => (Pc.outside : Pc D)) = 0 := Finset.sum_eq_zero fun _ _ => rfl
    exact hpc
  filled := ⟨fun _ => rfl, by simp [system, Sys.chain]⟩
  issued := by
    refine ⟨fun x => ?_, by simp [system, Sys.chain], fun _ => .outside⟩
    obtain ⟨stage, p⟩ := x
    cases stage <;> simp [system, Sys.chain, Sys.queued, MultiQueue.jobs, MultiQueue.new]

theorem inv_of_run (run : (system Tid D cfg).Run xs s) : Inv cfg s := by
  refine run.always Inv.init fun _ h hn => ?_
  obtain ⟨sound, hstep⟩ := next_chain h.sound hn
  exact ⟨sound, h.unique.step hstep, h.won.step hstep, h.filled.step hstep, h.issued.step h.won hstep⟩

/-- At most one delivery for each request: no duplicate is in two places, `done` is called at most once and with
    a whole object, and a duplicate is discarded as purged only when another one of its request has set the
    `PurgeState`, and has called `done` or does so with its next step. -/
theorem delivers_once (run : (system Tid D cfg).Run xs s) (hids : s.requests.Nodup) :
    (∀ k, s.chain.copies cfg k ≤ 1) ∧
    (∀ r, s.delivered.countP (·.jobData.purgeState == r) ≤ 1) ∧
    (∀ job ∈ s.delivered, ∃ o, job.jobData.object = some o ∧ job.jobData.index = o.length) ∧
    (∀ l k, Discards s l k → s.purged k.1 = true ∧ ∃! p, s.chain.Winner (k.1, p)) ∧
    (∀ t job, s.pc t = .delivering job → s.abort = none →
      ∃ s', s.next cfg (.step t) = some s' ∧ s'.delivered = s.delivered ++ [job]) := by
  have h := inv_of_run run
  refine ⟨fun k => ?_, fun r => ?_, h.filled.delivered, fun l k hk => ?_, fun t job pc habort => ?_⟩
  · have hk := h.unique k
    split at hk <;> omega
  · have hr : tally (Pc.wins r) s.pc + s.delivered.countP (·.jobData.purgeState == r) = if s.purged r then 1 else 0 :=
      h.won r
    split at hr <;> omega
  · have hset := hk.purged h.issued hids
    exact ⟨hset, h.won.winner hset⟩
  · simp only [Sys.next, habort, Sys.step, pc]
    refine ⟨_, rfl, ?_⟩
    split <;> rfl

/-- A request with two duplicates: the first goes through the chain and is delivered while the second one is still
    in the queue of `Connect`. -/
def twoDuplicates : List (Label (Fin 1) Nat) :=
  let ready : ReadyFor := ⟨true, true, 0⟩
  [.dispatch 0 ⟨7, 0, 0, ⟨["10.0.0.1", "10.0.0.2"], 3, 5⟩⟩ 1] ++ List.replicate 3 (.step 0) ++
    [.take 0 .connect 0, .step 0, .step 0, .fire 0 0 4 ready, .step 0, .step 0,
      .take 0 .request 0, .step 0, .send 0 true, .step 0, .fire 0 0 4 ready, .step 0, .step 0,
      .take 0 .response 0, .step 0, .readHeader 0 (some ⟨11, 0, 3, 0, 2⟩), .read 0 (.bytes [1, 2]), .read 0 .closed,
      .step 0, .step 0, .step 0]

theorem delivers_once_two : ∃ xs s, (system (Fin 1) Nat ⟨fun _ => 1, true⟩).Run xs s ∧ s.requests.Nodup ∧
    s.delivered.length = 1 ∧ Discards s (.step 0) (0, 1) ∧ s.purged 0 = true ∧ ∃! p, s.chain.Winner (0, p) := by
  obtain ⟨xs, s, run, -, hs⟩ := Lts.run_of_exec_any (system (Fin 1) Nat ⟨fun _ => 1, true⟩) twoDuplicates
    (fun s => decide (s.requests.Nodup ∧ s.delivered.length = 1 ∧ s.pc 0 = .sweeping .connect 7 ∧
      s.queued (.connect, 1) = [.connect ⟨7, 1, 1, ⟨"10.0.0.2", 3, 5, 0⟩⟩])) (by decide)
  obtain ⟨hids, hone, hpc, hqueued⟩ := of_decide_eq_true hs
  have hdiscards : Discards s (.step 0) (0, 1) :=
    .swept (j := .connect ⟨7, 1, 1, ⟨"10.0.0.2", 3, 5, 0⟩⟩) (p := 1) hpc (by rw [hqueued]; exact List.mem_singleton_self _)
  obtain ⟨-, -, -, hwinner, -⟩ := delivers_once run hids
  exact ⟨xs, s, run, hids, hone, hdiscards, hwinner _ _ hdiscards⟩

end Dans.Client
