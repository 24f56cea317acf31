import Dans.Theorems.Received

/-! What becomes of the duplicates of a request. A duplicate that was dispatched stays in the chain until the network
    fails it or another duplicate of its request has won, so a request is lost only with all of its duplicates. -/

namespace Dans.Client

variable {Tid D : Type} {cfg : Config}

/-! ### Where a duplicate is -/

/-- A queue, the reactor or a thread has the duplicate, or a dispatcher has still to make it. -/
def Chain.Keeps (c : Chain Tid D) (k : Duplicate) : Prop :=
  (∃ x, ∃ j ∈ c.queued x, j.key = k) ∨ (∃ j ∈ c.registered, j.key = k) ∨ ∃ t, 0 < (c.pc t).holds k

variable {c c' : Chain Tid D} {k : Duplicate} {j : StageJob D}

theorem key_of_holds {p : Pc D} (hjob : p.job = some j) (h : 0 < p.holds k) : j.key = k := by
  rw [holds_of_job hjob] at h
  split at h
  · next hkey => exact beq_iff_eq.mp hkey
  · cases h

theorem holds_of_key {p : Pc D} (hjob : p.job = some j) (hkey : j.key = k) : 0 < p.holds k := by
  simp [holds_of_job hjob, hkey]

variable [DecidableEq Tid] {t : Tid}

/-- One thread moves: what it held is kept elsewhere, and the lists keep what they had, or the thread has it now. -/
theorem Chain.Keeps.move (h : c.Keeps k) {p : Pc D} (hpc : c'.pc = Function.update c.pc t p)
    (hqueued : ∀ x, ∀ j ∈ c.queued x, j.key = k → c'.Keeps k) (hreg : ∀ j ∈ c.registered, j.key = k → c'.Keeps k)
    (ht : 0 < (c.pc t).holds k → c'.Keeps k) : c'.Keeps k := by
  rcases h with ⟨x, j, hj, hkey⟩ | ⟨j, hj, hkey⟩ | ⟨u, hu⟩
  · exact hqueued x j hj hkey
  · exact hreg j hj hkey
  · by_cases hut : u = t
    · exact ht (hut ▸ hu)
    · refine Or.inr (Or.inr ⟨u, ?_⟩)
      rw [hpc, Function.update_of_ne hut]
      exact hu

/-- How a duplicate can leave the chain: with its callback, with the thread that held it, or by a purge of its queue. -/
inductive Chain.Loses (c c' : Chain Tid D) (k : Duplicate) : Prop where
  | fired {j : StageJob D} (mem : j ∈ c.registered) (key : j.key = k)
  | left {t : Tid} {d : Dispatching D} (pc : c.pc t = .dispatching d) (holds : 0 < (c.pc t).holds k)
      (after : c'.pc t = .outside)
  | dropped {t : Tid} {j : StageJob D} (drops : Drops c.purged (c.pc t)) (job : (c.pc t).job = some j) (key : j.key = k)
      (after : c'.pc t = .outside)
  | delivered {t : Tid} {job : Job (ResponseData D)} (pc : c.pc t = .delivering job)
      (key : (StageJob.response job).key = k)
  | swept {t : Tid} {stage : Stage} {p : Priority} {j : StageJob D} (pc : c.pc t = .sweeping stage j.jobId)
      (mem : j ∈ c.queued (stage, p)) (key : j.key = k)

theorem Drops.job {purged : Nat → Bool} {p : Pc D} (h : Drops purged p) : ∃ j, p.job = some j := by
  cases h <;> exact ⟨_, rfl⟩

theorem Chain.Step.loses (hs : c.Step cfg c') (h : c.Keeps k) (hgone : ¬c'.Keeps k) : c.Loses c' k := by
  have queued : ∀ {x j}, j ∈ c'.queued x → j.key = k → c'.Keeps k := fun hj hkey => Or.inl ⟨_, _, hj, hkey⟩
  have registered : ∀ {j}, j ∈ c'.registered → j.key = k → c'.Keeps k := fun hj hkey => Or.inr (Or.inl ⟨_, hj, hkey⟩)
  have thread : ∀ t, 0 < (c'.pc t).holds k → c'.Keeps k := fun t ht => Or.inr (Or.inr ⟨t, ht⟩)
  by_contra hlost
  refine hgone ?_
  cases hs with
  | stay => exact h
  | @dispatch t d pc fresh =>
    refine h.move rfl (fun _ _ => queued) (fun _ => registered) fun ht => ?_
    rw [pc] at ht
    cases ht
  | @duplicate t d job pc le dup list =>
    refine h.move rfl (fun _ _ hj => queued (Fifo.mem_push hj _ _)) (fun _ => registered) fun ht => ?_
    rw [pc, holds_duplicate dup le] at ht
    by_cases hkey : (StageJob.connect job).key = k
    · exact queued (Fifo.mem_push_self _ _ _) hkey
    · refine thread t ?_
      dsimp only
      rw [Function.update_self]
      simpa [hkey] using ht
  | @dispatched t d pc =>
    refine h.move rfl (fun _ _ => queued) (fun _ => registered) fun ht => ?_
    exact absurd (.left pc ht (Function.update_self ..)) hlost
  | @take t stage prio j queued' pc pops list =>
    obtain ⟨rest, hlist, rfl⟩ := pops
    refine h.move rfl (fun x j' hj' hkey => ?_) (fun _ => registered) fun ht => ?_
    · by_cases hx : x = (stage, prio)
      · subst hx
        rw [hlist] at hj'
        rcases List.mem_cons.mp hj' with rfl | hj'
        · refine thread t ?_
          dsimp only
          rw [Function.update_self]
          exact holds_of_key rfl hkey
        · exact queued (x := (stage, prio)) (by simpa using hj') hkey
      · exact queued (x := x) (by simpa [hx] using hj') hkey
    · rw [pc] at ht
      cases ht
  | @work t p works =>
    obtain ⟨j, j', hj, hj', hkey, -⟩ := works.job
    refine h.move rfl (fun _ _ => queued) (fun _ => registered) fun ht => thread t ?_
    dsimp only
    rw [Function.update_self]
    exact holds_of_key hj' (hkey.trans (key_of_holds hj ht))
  | @register t j registers =>
    refine h.move rfl (fun _ _ => queued) (fun _ hj => registered (List.mem_append_left _ hj)) fun ht => ?_
    exact registered (List.mem_append_right _ (List.mem_singleton_self j)) (key_of_holds registers.job ht)
  | @fire t i j soc pc reg =>
    refine h.move rfl (fun _ _ => queued) (fun j' hj' hkey => ?_) fun ht => ?_
    · by_cases hj : j.key = k
      · refine thread t ?_
        dsimp only
        rw [Function.update_self]
        exact holds_of_key rfl hj
      · refine registered (KeyedList.mem_eraseIdx_of_ne reg hj' ?_) hkey
        rintro rfl
        exact hj hkey
    · rw [pc] at ht
      cases ht
  | @lose i =>
    rcases h with ⟨x, j, hj, hkey⟩ | ⟨j, hj, hkey⟩ | ht
    · exact queued hj hkey
    · exact absurd (.fired hj hkey) hlost
    · exact Or.inr (Or.inr ht)
  | @drop t drops =>
    refine h.move rfl (fun _ _ => queued) (fun _ => registered) fun ht => ?_
    obtain ⟨j, hj⟩ := drops.job
    exact absurd (.dropped drops hj (key_of_holds hj ht) (Function.update_self ..)) hlost
  | @win t job pc fresh =>
    refine h.move rfl (fun _ _ => queued) (fun _ => registered) fun ht => thread t ?_
    dsimp only
    rw [Function.update_self]
    rw [pc] at ht
    exact ht
  | @deliver t job pc =>
    refine h.move rfl (fun _ _ => queued) (fun _ => registered) fun ht => ?_
    have hjob : (c.pc t).job = some (.response job) := by rw [pc]; rfl
    exact absurd (.delivered pc (key_of_holds hjob ht)) hlost
  | @sweep t stage jobId p pc next =>
    refine h.move rfl (fun x j hj hkey => ?_) (fun _ => registered) fun ht => ?_
    · refine queued (x := x) (j := j) ?_ hkey
      dsimp only [sweepStage]
      split
      · next hx =>
        refine List.mem_filter.mpr ⟨hj, ?_⟩
        by_contra hid
        have hid : j.jobId = jobId := by simpa using hid
        exact hlost (.swept (by rw [pc, hx, hid]) hj hkey)
      · exact hj
    · rw [pc] at ht
      cases ht
  | @pass t j pc list =>
    refine h.move rfl (fun _ _ hj => queued (Fifo.mem_push hj _ _)) (fun _ => registered) fun ht => ?_
    have hjob : (c.pc t).job = some j := by rw [pc]; rfl
    exact queued (Fifo.mem_push_self _ _ _) (key_of_holds hjob ht)

/-! ### Why a duplicate is lost -/

/-- The network fails the duplicate: its callback gets an error or a bad socket, or its connection ends before its
    object is complete. -/
inductive Fails (s : Sys Tid D) : Label Tid D → Duplicate → Prop where
  | error {t : Tid} {i : Nat} {soc : Int} {ready : ReadyFor} {j : StageJob D} (reg : s.registered[i]? = some j)
      (err : ready.err ≠ 0) : Fails s (.fire t i soc ready) j.key
  | socket {t : Tid} {j : StageJob D} {soc : Int} (pc : s.pc t = .called j soc) (bad : soc < 0) : Fails s (.step t) j.key
  | closed {t : Tid} {job : Job (ResponseData D)} (pc : s.pc t = .finished job true)
      (short : job.jobData.complete = false) : Fails s (.step t) (StageJob.response job).key

variable {s s' : Sys Tid D} {l : Label Tid D}

omit [DecidableEq Tid] in
theorem registered_of_enqueue {r : Sys Tid D} (h : r.enqueue j = .ok s') : s'.registered = r.registered := by
  cases j <;> obtain ⟨x, -, rfl⟩ := ok_of_map h <;> rfl

omit [DecidableEq Tid] in
theorem registered_of_duplicate {r : Sys Tid D} {i : Nat} (h : (r.enqueue j).map (·.increment i) = .ok s') :
    s'.registered = r.registered := by
  obtain ⟨q, hq, rfl⟩ := ok_of_map h
  have hreg : (q.increment i).registered = q.registered := congrArg Chain.registered (chain_increment q i)
  exact hreg.trans (registered_of_enqueue hq)

omit [DecidableEq Tid] in
theorem registered_of_purge {r : Sys Tid D} {stage : Stage} {id : JobId} (h : r.purge id stage = .ok s') :
    s'.registered = r.registered := by
  cases stage <;> obtain ⟨x, -, rfl⟩ := ok_of_map h <;> rfl

omit [DecidableEq Tid] in
theorem registered_of_dequeue {r : Sys Tid D} {stage : Stage} {p : Priority} {ret : Option (StageJob D)}
    (h : r.dequeue p stage = .ok (s', ret)) : s'.registered = r.registered := by
  cases stage <;> obtain ⟨x, -, hx⟩ := ok_of_map h <;> cases hx <;> rfl

omit [DecidableEq Tid] in
theorem registered_orFail {r : Except Fault (Sys Tid D)} (h : ∀ s', r = .ok s' → s'.registered = s.registered) :
    (s.orFail r).registered = s.registered := by
  cases r with
  | error f => rfl
  | ok s' => exact h s' rfl

theorem registered_of_step (h : s.step cfg t = some s') : s.registered ⊆ s'.registered := by
  have same : ∀ {r : Sys Tid D}, r.registered = s.registered → s.registered ⊆ r.registered := fun h => h ▸ List.Subset.refl _
  unfold Sys.step at h
  split at h
  · cases h
    unfold Sys.duplicate
    repeat' split
    · exact same rfl
    · exact same (registered_orFail fun _ he => (registered_of_duplicate he).trans rfl)
    · exact same rfl
  · cases h
    exact same rfl
  · cases h
    exact List.subset_append_left _ _
  · split at h <;> cases h
    exact same rfl
  · cases h
    exact List.subset_append_left _ _
  · split at h <;> cases h <;> exact same rfl
  · split at h <;> cases h <;> exact same rfl
  · cases h
    split <;> exact same rfl
  · next stage id hpc =>
    cases h
    cases stage <;> exact same (registered_orFail fun _ hp => (registered_of_purge hp).trans rfl)
  · cases h
    exact List.subset_append_left _ _
  · cases h
    unfold Sys.passOn
    split <;> exact same rfl
  · cases h
    unfold Sys.pass
    split
    · exact same rfl
    · exact same (registered_orFail fun _ he => (registered_of_enqueue he).trans rfl)
  all_goals cases h

/-- Only the reactor takes a callback away. -/
theorem registered_of_next (h : s.next cfg l = some s') :
    (∃ t i soc ready, l = .fire t i soc ready) ∨ s.registered ⊆ s'.registered := by
  unfold Sys.next at h
  split at h
  · cases h
  cases l with
  | fire t i soc ready => exact Or.inl ⟨t, i, soc, ready, rfl⟩
  | step t => exact Or.inr (registered_of_step h)
  | dispatch t job r =>
    dsimp only at h
    split at h <;> cases h
    unfold Sys.dispatch
    dsimp only
    repeat' split
    all_goals exact Or.inr (List.Subset.refl _)
  | take t stage p =>
    dsimp only [Sys.take] at h
    split at h
    · split at h <;> cases h
      · exact Or.inr (List.Subset.refl _)
      · next hd => exact Or.inr (registered_of_dequeue hd ▸ List.Subset.refl _)
      · next hd => exact Or.inr ((registered_of_dequeue hd).symm ▸ List.Subset.refl _)
    · cases h
  | send t complete =>
    dsimp only [Sys.send] at h
    split at h <;> cases h
    split <;> exact Or.inr (List.Subset.refl _)
  | readHeader t header =>
    dsimp only [Sys.readHeader] at h
    repeat' split at h
    all_goals cases h
    all_goals exact Or.inr (List.Subset.refl _)
  | read t result =>
    dsimp only [Sys.read] at h
    repeat' split at h
    all_goals cases h
    all_goals exact Or.inr (List.Subset.refl _)

/-- A thread that waits for nobody is moved by its own step. -/
theorem step_of_moved (hn : s.next cfg l = some s') (habort : s'.abort = none) (hmoved : s'.pc t ≠ s.pc t)
    (hout : s.pc t ≠ .outside) (hact : ∀ j, s.pc t ≠ .acting j) (hread : ∀ job, s.pc t ≠ .reading job) :
    l = .step t ∧ s.step cfg t = some s' := by
  obtain rfl : l.thread = t := by
    rcases next_turns hn with hstop | ⟨-, hpc⟩ | ⟨p, hpc, -⟩
    · rw [habort] at hstop
      cases hstop
    · exact absurd (congrFun hpc t) hmoved
    · by_contra hne
      exact hmoved (by rw [hpc, Function.update_of_ne (Ne.symm hne)])
  unfold Sys.next at hn
  split at hn
  · cases hn
  cases l with
  | step t => exact ⟨rfl, hn⟩
  | dispatch t job r =>
    dsimp only at hn
    split at hn
    · next hpc => exact absurd hpc hout
    · cases hn
  | take t stage p =>
    dsimp only [Sys.take] at hn
    split at hn
    · next hpc => exact absurd hpc hout
    · cases hn
  | fire t i soc ready =>
    dsimp only [Sys.fire] at hn
    split at hn
    · next hpc _ => exact absurd hpc hout
    · cases hn
  | send t complete =>
    dsimp only [Sys.send] at hn
    split at hn
    · next hpc => exact absurd hpc (hact _)
    · cases hn
  | readHeader t header =>
    dsimp only [Sys.readHeader] at hn
    split at hn
    · next hpc => exact absurd hpc (hact _)
    · cases hn
  | read t result =>
    dsimp only [Sys.read] at hn
    split at hn
    · next hpc => exact absurd hpc (hread _)
    · cases hn

/-- A thread leaves the loop of the dispatcher only behind its last duplicate. -/
theorem holds_of_left {d : Dispatching D} (hpc : s.pc t = .dispatching d) (h : s.step cfg t = some s')
    (hafter : s'.pc t = .outside) : ¬0 < (s.pc t).holds k := by
  intro hholds
  rw [hpc] at hholds
  simp only [Pc.holds] at hholds
  split at hholds
  · next hrange =>
    have hle : d.prio ≤ d.maxPrio := hrange.2.1.trans hrange.2.2
    simp only [Sys.step, hpc, Sys.duplicate, if_pos hle] at h
    cases h
    split at hafter
    · exact absurd (hpc.symm.trans hafter) (by simp)
    · next job _ =>
      cases he : ((s.goto t (.dispatching { d with i := d.i + 1, prio := d.prio + 1 })).enqueue (.connect job)).map
          (·.increment d.i) with
      | error f =>
        rw [he] at hafter
        exact absurd (hpc.symm.trans hafter) (by simp)
      | ok r =>
        rw [he] at hafter
        have hr : r.pc t = .outside := hafter
        rw [pc_of_duplicate he, Sys.goto] at hr
        simp at hr
  · cases hholds

/-- A callback is lost only with an error. -/
theorem fails_of_fired {i : Nat} {soc : Int} {ready : ReadyFor} (h : s.fire t i soc ready = some s')
    (habort : s'.abort = none) (hj : j ∈ s.registered) (hgone : ¬s'.chain.Keeps j.key) :
    Fails s (.fire t i soc ready) j.key := by
  unfold Sys.fire at h
  split at h
  · next j' hpc hreg =>
    have hjj : j = j' := by
      by_contra hne
      have hkept : s'.registered = s.registered.eraseIdx i := by
        dsimp only at h
        repeat' split at h
        all_goals cases h
        all_goals rfl
      refine hgone (Or.inr (Or.inl ⟨j, ?_, rfl⟩))
      change j ∈ s'.registered
      rw [hkept]
      exact KeyedList.mem_eraseIdx_of_ne hreg hj hne
    subst hjj
    dsimp only at h
    split at h
    · next herr => exact .error hreg herr
    · split at h <;> cases h
      · refine absurd (Or.inr (Or.inr ⟨t, ?_⟩)) hgone
        change 0 < (Function.update s.pc t (.called j soc) t).holds j.key
        rw [Function.update_self]
        exact holds_of_key rfl rfl
      · cases habort
  · cases h

/-- A thread drops a duplicate that was not purged only because of its socket or its connection. -/
theorem fails_of_dropped (hn : s.next cfg l = some s') (habort : s'.abort = none) (drops : Drops s.purged (s.pc t))
    (hjob : (s.pc t).job = some j) (hafter : s'.pc t = .outside) : Fails s l j.key ∨ s.purged j.purgeState = true := by
  generalize hc : s.pc t = p at drops hjob
  cases drops with
  | taken set =>
    cases hjob
    exact Or.inr set
  | late set =>
    cases hjob
    exact Or.inr set
  | @called j' soc =>
    cases hjob
    obtain ⟨rfl, hstep⟩ := step_of_moved (t := t) hn habort (by simp [hc, hafter]) (by simp [hc]) (by simp [hc])
      (by simp [hc])
    by_cases hbad : soc < 0
    · exact Or.inl (.socket hc hbad)
    · refine Or.inr (Bool.eq_true_of_not_eq_false fun hset => ?_)
      have hpass : s.purged j.purgeState = false ∧ 0 ≤ soc := ⟨hset, Int.not_lt.mp hbad⟩
      simp only [Sys.step, hc, Sys.passOn, if_pos hpass, Option.some.injEq] at hstep
      simp [← hstep, Sys.goto] at hafter
  | @closed job =>
    cases hjob
    obtain ⟨rfl, hstep⟩ := step_of_moved (t := t) hn habort (by simp [hc, hafter]) (by simp [hc]) (by simp [hc])
      (by simp [hc])
    refine Or.inl (.closed hc (Bool.eq_false_of_not_eq_true fun hcomplete => ?_))
    simp only [Sys.step, hc, if_pos hcomplete, Option.some.injEq] at hstep
    simp [← hstep, Sys.goto] at hafter

variable [Fintype Tid]

/-- A duplicate that a step loses was failed by the network, or its request has a winner. -/
theorem fails_of_loses (inv : Inv cfg s) (hids : s.requests.Nodup) (hn : s.next cfg l = some s') (habort : s'.abort = none)
    (h : s.chain.Keeps k) (hgone : ¬s'.chain.Keeps k) : Fails s l k ∨ s.purged k.1 = true := by
  cases (next_chain inv.sound hn).2.loses h hgone with
  | @fired j mem key =>
    subst key
    rcases registered_of_next hn with ⟨t, i, soc, ready, rfl⟩ | hsub
    · have hfire : s.fire t i soc ready = some s' := by
        unfold Sys.next at hn
        split at hn
        · cases hn
        · exact hn
      exact Or.inl (fails_of_fired hfire habort mem hgone)
    · exact absurd (Or.inr (Or.inl ⟨j, hsub mem, rfl⟩)) hgone
  | @left t d pc holds after =>
    have hpc : s.pc t = .dispatching d := pc
    obtain ⟨-, hstep⟩ := step_of_moved (t := t) hn habort (by rw [hpc, show s'.pc t = .outside from after]; simp)
      (by simp [hpc]) (by simp [hpc]) (by simp [hpc])
    exact absurd holds (holds_of_left hpc hstep after)
  | @dropped t j drops job key after =>
    subst key
    exact fails_of_dropped hn habort drops job after
  | @delivered t job pc key =>
    subst key
    exact Or.inr (inv.won.purged_of_delivering pc)
  | @swept t stage p j pc mem key =>
    subst key
    exact Or.inr (Discards.purged (.swept pc mem) inv.issued hids)

/-! ### Whole runs -/

omit [Fintype Tid] in
theorem Chain.Step.requests_sublist (hs : c.Step cfg c') : c.requests.Sublist c'.requests := by
  cases hs with
  | dispatch _ _ => exact List.sublist_append_left _ _
  | _ => exact List.Sublist.refl _

omit [Fintype Tid] in
/-- The dispatcher begins with all duplicates of a request to make. -/
theorem keeps_of_dispatch {job : Job (ConnectData D)} {dup : Nat} (hn : s.next cfg (.dispatch t job dup) = some s')
    (habort : s'.abort = none) {p : Priority} (hlow : job.priority ≤ p)
    (hhigh : p ≤ Dispatcher.maxPrio (cfg.maxPriority .connect) job.priority dup) :
    s'.chain.Keeps (s.requests.length, p) := by
  unfold Sys.next at hn
  split at hn
  · cases hn
  dsimp only at hn
  split at hn <;> cases hn
  unfold Sys.dispatch at habort ⊢
  dsimp only at habort ⊢
  split at habort
  · cases habort
  · next hprio =>
    rw [if_neg hprio]
    split at habort
    · cases habort
    · next haddresses =>
      rw [if_neg haddresses]
      refine Or.inr (Or.inr ⟨t, ?_⟩)
      simp [Sys.chain, Sys.goto, Pc.holds, hlow, hhigh]

omit [DecidableEq Tid] in
theorem copies_of_keeps (inv : Inv cfg s) (h : s.chain.Keeps k) : s.chain.copies cfg k = 1 := by
  have hone := inv.unique k
  have hpos : 0 < s.chain.copies cfg k := by
    unfold Chain.copies
    rcases h with ⟨x, j, hj, hkey⟩ | ⟨j, hj, hkey⟩ | ⟨t, ht⟩
    · have := Fifo.count_pos (d := fun j => j.key == k) (inv.sound.mem_lists x hj) hj (beq_iff_eq.mpr hkey)
      exact Nat.add_pos_left (Nat.add_pos_left this _) _
    · have := List.countP_pos_iff (p := fun j => j.key == k).mpr ⟨j, hj, beq_iff_eq.mpr hkey⟩
      exact Nat.add_pos_left (Nat.add_pos_right _ this) _
    · exact Nat.add_pos_right _ (ht.trans_le (Tally.le_tally (·.holds k) s.chain.pc t))
  split at hone <;> omega

variable {xs : List (Sys Tid D × Label Tid D)}

/-- By induction on the run: a duplicate is in the chain until the network fails it or its `PurgeState` is set. -/
theorem survives_of_run (run : (system Tid D cfg).Run xs s) (hids : s.requests.Nodup) (habort : s.abort = none)
    {x : Sys Tid D × Label Tid D} (hx : x ∈ xs) {t : Tid} {job : Job (ConnectData D)} {dup : Nat}
    (hl : x.2 = .dispatch t job dup) {p : Priority} (hlow : job.priority ≤ p)
    (hhigh : p ≤ Dispatcher.maxPrio (cfg.maxPriority .connect) job.priority dup) :
    s.chain.Keeps (x.1.requests.length, p) ∨ (∃ y ∈ xs, Fails y.1 y.2 (x.1.requests.length, p)) ∨
      s.purged x.1.requests.length = true := by
  induction run with
  | init => cases hx
  | @step xs s s' l run hn ih =>
    have hinv := inv_of_run run
    obtain ⟨-, hstep⟩ := next_chain hinv.sound hn
    have hids' : s.requests.Nodup := hids.sublist hstep.requests_sublist
    rcases List.mem_append.mp hx with hx | hx
    · rcases ih hids' (next_abort hn) hx with hkeeps | ⟨y, hy, hfails⟩ | hset
      · by_cases hgone : s'.chain.Keeps (x.1.requests.length, p)
        · exact Or.inl hgone
        · rcases fails_of_loses hinv hids' hn habort hkeeps hgone with hfails | hset
          · exact Or.inr (Or.inl ⟨(s, l), List.mem_append_right _ (List.mem_singleton_self _), hfails⟩)
          · exact Or.inr (Or.inr (hstep.keeps_purged hset))
      · exact Or.inr (Or.inl ⟨y, List.mem_append_left _ hy, hfails⟩)
      · exact Or.inr (Or.inr (hstep.keeps_purged hset))
    · obtain rfl := List.mem_singleton.mp hx
      obtain rfl : l = .dispatch t job dup := hl
      exact Or.inl (keeps_of_dispatch hn habort hlow hhigh)

/-- A request is lost only with all of its duplicates: `done` has been called for it by one of them or is about to be, or
    each duplicate that was dispatched is in exactly one place of the chain unless the network has failed it. -/
theorem duplicates_survive (run : (system Tid D cfg).Run xs s) (hids : s.requests.Nodup) (habort : s.abort = none)
    {x : Sys Tid D × Label Tid D} (hx : x ∈ xs) {t : Tid} {job : Job (ConnectData D)} {dup : Nat}
    (hl : x.2 = .dispatch t job dup) :
    (∃! p, s.chain.Winner (x.1.requests.length, p)) ∨
    ∀ p, job.priority ≤ p → p ≤ Dispatcher.maxPrio (cfg.maxPriority .connect) job.priority dup →
      s.chain.copies cfg (x.1.requests.length, p) = 1 ∨ ∃ y ∈ xs, Fails y.1 y.2 (x.1.requests.length, p) := by
  have hinv := inv_of_run run
  by_cases hset : s.purged x.1.requests.length = true
  · exact Or.inl (hinv.won.winner hset)
  · refine Or.inr fun p hlow hhigh => ?_
    rcases survives_of_run run hids habort hx hl hlow hhigh with hkeeps | hfails | hpurged
    · exact Or.inl (copies_of_keeps hinv hkeeps)
    · exact Or.inr hfails
    · exact absurd hpurged hset

/-- A request with two duplicates: the `Connect` of the first one fails. -/
def failedConnect : List (Label Unit Nat) :=
  [.dispatch () ⟨7, 0, 0, ⟨["10.0.0.1", "10.0.0.2"], 3, 5⟩⟩ 1] ++ List.replicate 3 (.step ()) ++
    [.take () .connect 0, .step (), .step (), .fire () 0 4 ⟨false, true, 111⟩]

/-- The dispatches of a run, with the number of requests before each. -/
def dispatches (s : Sys Tid D) : Label Tid D → List (Nat × Tid × Job (ConnectData D) × Nat)
  | .dispatch t job dup => [(s.requests.length, t, job, dup)]
  | _ => []

theorem duplicates_survive_failedConnect : ∃ xs s, (system Unit Nat ⟨fun _ => 1, true⟩).Run xs s ∧ s.requests = [7] ∧
    s.abort = none ∧ (∃ y ∈ xs, Fails y.1 y.2 (0, 0)) ∧
    (s.chain.copies ⟨fun _ => 1, true⟩ (0, 1) = 1 ∨ ∃ y ∈ xs, Fails y.1 y.2 (0, 1)) := by
  obtain ⟨xs, s, run, hs⟩ := Lts.run_of_shown_any (system Unit Nat ⟨fun _ => 1, true⟩) dispatches failedConnect
    (fun ds s => decide (ds = [(0, (), ⟨7, 0, 0, ⟨["10.0.0.1", "10.0.0.2"], 3, 5⟩⟩, 1)] ∧ s.requests = [7] ∧
      s.abort = none ∧ s.delivered = [] ∧ s.pc () = .outside ∧ s.chain.copies ⟨fun _ => 1, true⟩ (0, 0) = 0)) (by decide)
  obtain ⟨hds, hreq, habort, hdelivered, hpc, hcopies⟩ := of_decide_eq_true hs
  obtain ⟨x, hx, hshown⟩ := List.mem_flatMap.mp (hds ▸ List.mem_singleton_self _)
  obtain ⟨r, l⟩ := x
  cases l with
  | dispatch t job dup =>
    obtain ⟨hr, -, rfl, rfl⟩ : 0 = r.requests.length ∧ () = t ∧ _ = job ∧ 1 = dup := by
      simpa [dispatches] using hshown
    rcases duplicates_survive run (by rw [hreq]; exact List.nodup_singleton 7) habort hx rfl with ⟨q, hwinner, -⟩ | hall
    · rcases hwinner with ⟨u, job, hu, -⟩ | ⟨job, hmem, -⟩
      · exact absurd (hpc.symm.trans hu) (by simp)
      · have hmem : job ∈ s.delivered := hmem
        rw [hdelivered] at hmem
        cases hmem
    · dsimp only at hall
      rw [← hr] at hall
      refine ⟨xs, s, run, hreq, habort, ?_, hall 1 (Nat.zero_le 1) le_rfl⟩
      exact (hall 0 le_rfl (Nat.zero_le 1)).resolve_left (by simp [hcopies])
  | _ => cases hshown

end Dans.Client
