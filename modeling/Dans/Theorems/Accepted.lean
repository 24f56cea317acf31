import Dans.Theorems.Reassembly

/-! For which headers `done` is called. The response handler looks at neither the type nor the object id of a header, so
    that only accepted objects are delivered rests on what the server sends behind the other headers. -/

namespace Dans

/-- Nothing was received behind the header, which announces something. -/
def Reception.Cut (r : Reception) : Prop := r.bytes = [] ∧ r.header.startIdx ≠ r.header.sizeBytes

theorem Reception.Cut.not_full {r : Reception} (h : r.Cut) (hfits : r.header.Fits) :
    r.bytes.length ≠ r.header.announced := by
  obtain ⟨hbytes, hne⟩ := h
  obtain ⟨hlow, hhigh⟩ := hfits
  rw [hbytes, Protocol.announced, List.length_nil]
  omega

namespace Client

variable {Tid D : Type} {cfg : Config} [DecidableEq Tid] [Fintype Tid] {s s' : Sys Tid D} {l : Label Tid D} {t : Tid}
  {k : Duplicate} {xs : List (Sys Tid D × Label Tid D)} {r : Reception} {job : Job (ResponseData D)}

/-- A header that is read consists of values of `int`. -/
def Label.ints : Label Tid D → Bool
  | .readHeader _ (some header) => decide header.Ints
  | _ => true

/-- A header accepts the request, or it announces at least one byte and the connection ends right behind it. -/
def acceptsOrEnds (g : Duplicate → Option Reception) (s : Sys Tid D) (l : Label Tid D) : Bool :=
  match l with
  | .readHeader t (some header) =>
    match s.pc t with
    | .acting (.response job) =>
      Reception.accepted ⟨job.jobData.objectId, header, []⟩ || header.startIdx != header.sizeBytes
    | _ => true
  | .read t result =>
    match s.pc t with
    | .reading job =>
      match g (StageJob.response job).key with
      | some r => r.accepted || result == .closed || result == .error
      | none => true
    | _ => true
  | _ => true

omit [DecidableEq Tid] [Fintype Tid] in
theorem receive_ints {g : Duplicate → Option Reception} (h : ∀ k r, g k = some r → r.header.Ints)
    (hok : l.ints = true) (k : Duplicate) (r : Reception) (hr : receive g s l k = some r) : r.header.Ints := by
  rcases receive_cases g s l k with hsame | ⟨t, job, header, rfl, -, -, hnew⟩ | ⟨t, job, data, -, -, -, hnew⟩
  · exact h k r (hsame ▸ hr)
  · cases hnew.symm.trans hr
    exact of_decide_eq_true hok
  · obtain ⟨r₀, hr₀, rfl⟩ := Option.map_eq_some_iff.mp (hnew.symm.trans hr)
    exact h k r₀ hr₀

omit [Fintype Tid] in
theorem ints_of_run (run : (system Tid D cfg).Run xs s) (hints : Lts.Meets (fun _ l => l.ints = true) xs) :
    ∀ k r, received xs k = some r → r.header.Ints :=
  run.invariant_after (P := fun (g : Duplicate → Option Reception) _ => ∀ k r, g k = some r → r.header.Ints)
    hints.after (fun _ _ hr => by cases hr) fun _ h hok _ => receive_ints h hok

/-! ### Nothing behind a header that does not accept -/

omit [DecidableEq Tid] [Fintype Tid] in
theorem receive_cut {g : Duplicate → Option Reception} (h : ∀ k r, g k = some r → r.accepted = false → r.Cut)
    (hok : acceptsOrEnds g s l = true) (k : Duplicate) (r : Reception) (hr : receive g s l k = some r)
    (hnot : r.accepted = false) : r.Cut := by
  rcases receive_cases g s l k with hsame | ⟨t, job, header, rfl, hpc, -, hnew⟩ | ⟨t, job, data, rfl, hpc, rfl, hnew⟩
  · exact h k r (hsame ▸ hr) hnot
  · cases hnew.symm.trans hr
    exact ⟨rfl, by simpa [acceptsOrEnds, hpc, hnot] using hok⟩
  · obtain ⟨r₀, hr₀, rfl⟩ := Option.map_eq_some_iff.mp (hnew.symm.trans hr)
    have hnot₀ : r₀.accepted = false := hnot
    simp [acceptsOrEnds, hpc, hr₀, hnot₀] at hok

omit [Fintype Tid] in
theorem cut_of_run (run : (system Tid D cfg).Run xs s)
    (hok : Lts.MeetsAfter receive (fun _ => none) (fun g s l => acceptsOrEnds g s l = true) xs) :
    ∀ k r, received xs k = some r → r.accepted = false → r.Cut :=
  run.invariant_after (P := fun (g : Duplicate → Option Reception) _ => ∀ k r, g k = some r → r.accepted = false → r.Cut)
    hok (fun _ _ hr => by cases hr) fun _ h hok _ => receive_cut h hok

theorem not_complete_of_cut (run : (system Tid D cfg).Run xs s) (hending : (s.pc t).ending = some job)
    (hr : received xs (StageJob.response job).key = some r) (hints : r.header.Ints) (hcut : r.Cut) :
    job.jobData.complete = false := by
  have hholds := holds_of_ending run hending rfl hr
  by_contra hcomplete
  obtain ⟨hfits, hfull⟩ := (hholds.complete_iff hints).mp (by simpa using hcomplete)
  exact hcut.not_full hfits hfull

/-! ### The duplicate is dropped -/

/-- The duplicate is gone, or a thread is at the read behind its header or, past the end of the connection, in front of
    dropping it. -/
def Sys.Leaves (cfg : Config) (s : Sys Tid D) (k : Duplicate) : Prop :=
  s.chain.copies cfg k = 0 ∨
    ∃ t job, (StageJob.response job).key = k ∧ (s.pc t = .reading job ∨ s.pc t = .finished job true)

omit [Fintype Tid] in
theorem finished_of_read {result : ReadResult} (hpc : s.pc t = .reading job) (hend : result = .closed ∨ result = .error)
    (hn : s.read t result = some s') (habort : s'.abort = none) : s'.pc t = .finished job true := by
  unfold Sys.read at hn
  rw [hpc] at hn
  dsimp only at hn
  split at hn
  · cases hn
    cases habort
  · rcases hend with rfl | rfl <;>
    · cases hn
      exact Function.update_self ..

/-- A step of the thread that has the duplicate finds the end of its connection, or drops it. -/
theorem leaves_of_thread (run : (system Tid D cfg).Run xs s) (hr : received xs (StageJob.response job).key = some r)
    (hints : r.header.Ints) (hnot : r.accepted = false) (hcut : r.Cut) (hok : acceptsOrEnds (received xs) s l = true)
    (hpc : s.pc l.thread = .reading job ∨ s.pc l.thread = .finished job true) (hn : s.next cfg l = some s')
    (habort : s'.abort = none) : s'.Leaves cfg (StageJob.response job).key := by
  have hending : (s.pc l.thread).ending = some job := by rcases hpc with hpc | hpc <;> rw [hpc] <;> rfl
  have hnone := not_complete_of_cut run hending hr hints hcut
  rcases hpc with hpc | hpc
  · rcases next_of_ending hending hn with hstep | ⟨result, hl, hread⟩
    · simp [Sys.step, hpc] at hstep
    · rw [hl] at hok
      have hend : result = .closed ∨ result = .error := by simpa [acceptsOrEnds, hpc, hr, hnot] using hok
      exact Or.inr ⟨_, job, rfl, Or.inr (finished_of_read hpc hend hread habort)⟩
  · rcases next_of_ending hending hn with hstep | ⟨result, -, hread⟩
    · simp only [Sys.step, hpc, hnone, Bool.false_eq_true, ↓reduceIte] at hstep
      cases hstep
      have hjob : (s.chain.pc l.thread).job = some (.response job) := by
        rw [show s.chain.pc l.thread = _ from hpc]
        rfl
      exact Or.inl ((inv_of_run run).unique.let_go hjob rfl)
    · simp [Sys.read, hpc] at hread

theorem Sys.Leaves.next (h : s.Leaves cfg k) (run : (system Tid D cfg).Run xs s) (hr : received xs k = some r)
    (hints : r.header.Ints) (hnot : r.accepted = false) (hcut : r.Cut) (hok : acceptsOrEnds (received xs) s l = true)
    (hn : s.next cfg l = some s') (habort : s'.abort = none) : s'.Leaves cfg k := by
  rcases h with hgone | ⟨t, job, rfl, hpc⟩
  · -- Only the dispatcher makes copies, and only of duplicates for which nothing was received yet.
    rcases (next_chain (inv_of_run run).sound hn).2.copies_le k with ⟨-, hle⟩ | ⟨d, hfresh, -, hcopies⟩
    · exact Or.inl (by omega)
    · refine Or.inl ?_
      rw [hcopies, hgone, Pc.holds, if_neg]
      rintro ⟨hstate, -, -⟩
      have hnone := (assembled_of_run run).2.unknown k (by omega)
      rw [hr] at hnone
      cases hnone
  · by_cases ht : l.thread = t
    · subst ht
      exact leaves_of_thread run hr hints hnot hcut hok hpc hn habort
    · exact Or.inr ⟨t, job, rfl, by rwa [pc_of_next hn habort ht]⟩

/-- By induction on the run: a duplicate whose header does not accept its request is on its way out from then on. -/
theorem leaves_of_run (run : (system Tid D cfg).Run xs s) : Lts.Meets (fun _ l => l.ints = true) xs →
    Lts.MeetsAfter receive (fun _ => none) (fun g s l => acceptsOrEnds g s l = true) xs → s.abort = none →
    ∀ {k r}, received xs k = some r → r.accepted = false → s.Leaves cfg k := by
  induction run with
  | init => exact fun _ _ _ _ _ hr => by cases hr
  | @step xs s s' l run hn ih =>
    intro hints hok habort k r hr hnot
    have hlast : acceptsOrEnds (received xs) s l = true := hok.last
    have hsnoc : received (xs ++ [(s, l)]) = receive (received xs) s l := Lts.history_snoc _ _
    rw [hsnoc] at hr
    rcases reads_of_receive hn hr with hold | ⟨t, job, hkey, rfl⟩
    · exact (ih hints.of_append.1 hok.of_append (next_abort hn) hold hnot).next run hold
        (ints_of_run run hints.of_append.1 _ _ hold) hnot (cut_of_run run hok.of_append _ _ hold hnot) hlast hn habort
    · exact Or.inr ⟨t, job, hkey, Or.inl (Function.update_self ..)⟩

/-- Steps of thread `t` alone lead to a state in which the duplicate is gone. -/
def LetsGo (cfg : Config) (s : Sys Tid D) (t : Tid) (k : Duplicate) : Prop :=
  ∃ ls s', (∀ l ∈ ls, l.thread = t) ∧ (system Tid D cfg).execFrom s ls = some s' ∧ s'.chain.copies cfg k = 0

theorem LetsGo.cons (h : LetsGo cfg s' t k) (hl : l.thread = t) (hn : s.next cfg l = some s') : LetsGo cfg s t k :=
  exec_cons hl hn h

theorem letsGo_of_finished (run : (system Tid D cfg).Run xs s) (hpc : s.pc t = .finished job true)
    (habort : s.abort = none) (hnone : job.jobData.complete = false) : LetsGo cfg s t (StageJob.response job).key := by
  have hn : s.next cfg (.step t) = some (s.goto t .outside) := by
    simp [Sys.next, habort, Sys.step, hpc, hnone]
  have hjob : (s.chain.pc t).job = some (.response job) := by
    rw [show s.chain.pc t = _ from hpc]
    rfl
  refine LetsGo.cons ⟨[], _, by simp, rfl, ?_⟩ rfl hn
  exact (inv_of_run run).unique.let_go hjob rfl

/-- The read finds the end of the connection. -/
theorem letsGo_of_reading (run : (system Tid D cfg).Run xs s) (hpc : s.pc t = .reading job) (habort : s.abort = none)
    (hinside : job.jobData.index ≤ job.jobData.size) (hnone : job.jobData.complete = false) :
    LetsGo cfg s t (StageJob.response job).key := by
  have hn : s.next cfg (.read t .closed) = some (s.goto t (.finished job true)) := by
    simp [Sys.next, habort, Sys.read, hpc, Nat.not_lt_of_le hinside]
  have run' := run.step (show (system Tid D cfg).next s (.read t .closed) = _ from hn)
  exact LetsGo.cons (letsGo_of_finished run' (Function.update_self ..) habort hnone) rfl hn

theorem letsGo_of_cut (run : (system Tid D cfg).Run xs s) (habort : s.abort = none)
    (hr : received xs (StageJob.response job).key = some r) (hints : r.header.Ints) (hfits : r.header.Fits) (hcut : r.Cut)
    (hpc : s.pc t = .reading job ∨ s.pc t = .finished job true) : LetsGo cfg s t (StageJob.response job).key := by
  have hending : (s.pc t).ending = some job := by rcases hpc with hpc | hpc <;> rw [hpc] <;> rfl
  have hnone := not_complete_of_cut run hending hr hints hcut
  rcases hpc with hpc | hpc
  · obtain ⟨-, hindex, hle, hsize⟩ := (holds_of_ending run hending rfl hr).fits hints hfits
    have hannounced : r.header.announced = r.header.sizeBytes.toNat - r.header.startIdx.toNat := rfl
    exact letsGo_of_reading run hpc habort (by obtain ⟨hlow, hhigh⟩ := hfits; omega) hnone
  · exact letsGo_of_finished run hpc habort hnone

/-! ### Which headers lead to `done` -/

/-- The duplicate that calls `done` has received all that its header announces. -/
theorem full_of_winner (run : (system Tid D cfg).Run xs s) (hints : ∀ k r, received xs k = some r → r.header.Ints)
    (hwinner : s.chain.Winner k) :
    ∃ (job : Job (ResponseData D)) (r : Reception), (StageJob.response job).key = k ∧ received xs k = some r ∧
      job.jobData.Holds (some r) ∧ r.header.Fits ∧ r.bytes.length = r.header.announced := by
  have inv := inv_of_run run
  have assembled := (assembled_of_run run).2
  obtain ⟨job, hkey, hobject, hcomplete, hholds⟩ : ∃ job, (StageJob.response job).key = k ∧
      job.jobData.object.isSome = true ∧ job.jobData.complete = true ∧
      job.jobData.Holds (received xs (StageJob.response job).key) := by
    rcases hwinner with ⟨t, job, hpc, hkey⟩ | ⟨job, hjob, hkey⟩
    · have hfilled := inv.filled.threads t
      rw [hpc, Pc.filled, Bool.and_eq_true] at hfilled
      have hjob : (s.chain.pc t).job = some (.response job) := by rw [hpc]; rfl
      exact ⟨job, hkey, hfilled.1, hfilled.2, assembled.live _ (Or.inr (Or.inr ⟨t, hjob⟩))⟩
    · obtain ⟨o, ho, hindex⟩ := inv.filled.delivered job hjob
      refine ⟨job, hkey, by simp [ho], ?_, assembled.delivered job hjob⟩
      simp [ResponseData.complete, ResponseData.size, ho, hindex]
  obtain ⟨r, hr⟩ := hholds.received hobject
  rw [hr] at hholds
  exact ⟨job, r, hkey, hkey ▸ hr, hholds, (hholds.complete_iff (hints _ r hr)).mp hcomplete⟩

/-- Only accepted objects are delivered, and only duplicates with one set a `PurgeState`, in a run in which every header
    accepts its request or is followed by the end of the connection and not by the bytes it announces. A duplicate with a
    header of the second kind is dropped. -/
theorem delivers_accepted (run : (system Tid D cfg).Run xs s) (hints : Lts.Meets (fun _ l => l.ints = true) xs)
    (hok : Lts.MeetsAfter receive (fun _ => none) (fun g s l => acceptsOrEnds g s l = true) xs) :
    (∀ job ∈ s.delivered, ∃ r, received xs (StageJob.response job).key = some r ∧
      r.header.type = Protocol.REQUEST_ACCEPT ∧ r.header.objectId = job.jobData.objectId) ∧
    (∀ k, s.chain.Winner k → ∃ r, received xs k = some r ∧
      r.header.type = Protocol.REQUEST_ACCEPT ∧ r.header.objectId = r.objectId) ∧
    (∀ n, s.purged n = true → ∃ p, s.chain.Winner (n, p)) ∧
    (∀ k r, received xs k = some r → r.accepted = false → ¬s.chain.Winner k ∧ (s.abort = none →
      s.chain.copies cfg k = 0 ∨ ∃ t job, (StageJob.response job).key = k ∧
        (s.pc t = .reading job ∨ s.pc t = .finished job true) ∧ (r.header.Fits → LetsGo cfg s t k))) := by
  have ints := ints_of_run run hints
  have won : ∀ k, s.chain.Winner k → ∃ r, received xs k = some r ∧ r.accepted = true := by
    intro k hk
    obtain ⟨-, r, -, hr, -, hfits, hfull⟩ := full_of_winner run ints hk
    refine ⟨r, hr, ?_⟩
    by_contra hnot
    exact (cut_of_run run hok k r hr (by simpa using hnot)).not_full hfits hfull
  refine ⟨fun job hjob => ?_, fun k hk => ?_, fun n hn => ?_, fun k r hr hnot => ⟨fun hk => ?_, fun habort => ?_⟩⟩
  · obtain ⟨r, hr, haccepted⟩ := won _ (Or.inr ⟨job, hjob, rfl⟩)
    have hholds : job.jobData.Holds (received xs (StageJob.response job).key) :=
      (assembled_of_run run).2.delivered job hjob
    rw [hr] at hholds
    obtain ⟨htype, hid⟩ := r.accepted_iff.mp haccepted
    exact ⟨r, hr, htype, hid.trans hholds.1.symm⟩
  · obtain ⟨r, hr, haccepted⟩ := won k hk
    exact ⟨r, hr, r.accepted_iff.mp haccepted⟩
  · obtain ⟨p, hp, -⟩ := (inv_of_run run).won.winner hn
    exact ⟨p, hp⟩
  · obtain ⟨r', hr', haccepted⟩ := won k hk
    cases hr.symm.trans hr'
    rw [hnot] at haccepted
    cases haccepted
  · rcases leaves_of_run run hints hok habort hr hnot with hgone | ⟨t, job, rfl, hpc⟩
    · exact Or.inl hgone
    · exact Or.inr ⟨t, job, rfl, hpc,
        fun hfits => letsGo_of_cut run habort hr (ints _ r hr) hfits (cut_of_run run hok _ r hr hnot) hpc⟩

/-- The way of a duplicate of a priority from its queue to the header of its answer. -/
def answer (prio : Priority) (header : Protocol) : List (Label Unit Nat) :=
  let ready : ReadyFor := ⟨true, true, 0⟩
  [.take () .connect prio, .step (), .step (), .fire () 0 4 ready, .step (), .step (), .take () .request prio, .step (),
    .send () true, .step (), .fire () 0 4 ready, .step (), .step (), .take () .response prio, .step (),
    .readHeader () (some header)]

/-- Two duplicates: the request of the first one is rejected, and it is dropped at the end of its connection; that of
    the second one is accepted, and its object is delivered. -/
def secondAnswers : List (Label Unit Nat) :=
  List.flatten [
    [.dispatch () ⟨7, 0, 0, ⟨["10.0.0.1", "10.0.0.2"], 3, 5⟩⟩ 1, .step (), .step (), .step ()],
    answer 0 ⟨12, 0, 3, 0, 1⟩, [.read () .closed, .step ()],
    answer 1 ⟨11, 0, 3, 0, 1⟩, [.read () (.bytes [8]), .read () .closed, .step (), .step (), .step ()]]

theorem delivers_accepted_second : ∃ xs s r, (system Unit Nat ⟨fun _ => 1, true⟩).Run xs s ∧
    received xs (0, 0) = some r ∧ r.header.type = Protocol.REQUEST_REJECT ∧ ¬s.chain.Winner (0, 0) ∧
    s.chain.copies ⟨fun _ => 1, true⟩ (0, 0) = 0 ∧ s.delivered.length = 1 ∧
    ∀ job ∈ s.delivered, ∃ r, received xs (StageJob.response job).key = some r ∧
      r.header.type = Protocol.REQUEST_ACCEPT ∧ r.header.objectId = job.jobData.objectId := by
  obtain ⟨ys, x, run, hys, hx⟩ := Lts.run_of_exec_any
    ((system Unit Nat ⟨fun _ => 1, true⟩).guarded receive (fun _ => none) fun g s l => acceptsOrEnds g s l = true)
    secondAnswers (fun x => decide (x.2 (0, 0) = some ⟨3, ⟨12, 0, 3, 0, 1⟩, []⟩ ∧ x.1.abort = none ∧
      x.1.delivered.length = 1 ∧ x.1.pc () = .sweeping .connect 7)) (by decide)
  obtain ⟨hr, habort, hlen, hpc⟩ := of_decide_eq_true hx
  obtain ⟨xs, run, hhist, hok, hls⟩ := run.of_guarded
  rw [hhist] at hr
  have hints : Lts.Meets (fun _ l => l.ints = true) xs := by
    have hall : ∀ l ∈ secondAnswers, l.ints = true := by decide
    exact fun y hy => hall _ (hys ▸ hls ▸ List.mem_map_of_mem hy)
  obtain ⟨hdelivered, -, -, hdropped⟩ := delivers_accepted run hints hok
  obtain ⟨hnot, hgone⟩ := hdropped (0, 0) _ hr rfl
  refine ⟨xs, x.1, _, run, hr, rfl, hnot, ?_, hlen, hdelivered⟩
  rcases hgone habort with hgone | ⟨t, job, -, hat, -⟩
  · exact hgone
  · rw [show x.1.pc t = _ from hpc] at hat
    simp at hat

/-- The answer is read whole and handed to `done`. -/
def fetchAll (header : Protocol) (data : List UInt8) : List (Label Unit Nat) :=
  fetch header ++ [.read () (.bytes data), .read () .closed, .step (), .step (), .step ()]

/-- The server rejects the request for object 3 with a message of one byte: the byte is handed to `done` as the
    object, and the `PurgeState` is set. -/
theorem delivers_rejected : ∃ xs s r, (system Unit Nat ⟨fun _ => 0, true⟩).Run xs s ∧ received xs (0, 0) = some r ∧
    r.header.Ints ∧ r.header.type = Protocol.REQUEST_REJECT ∧ s.delivered = [⟨7, 0, 0, ⟨4, 3, 1, some [8], 5, 0⟩⟩] ∧
    s.purged 0 = true := by
  obtain ⟨ys, x, run, -, hx⟩ := Lts.run_of_exec_any
    ((system Unit Nat ⟨fun _ => 0, true⟩).guarded receive (fun _ => none) fun _ _ _ => True)
    (fetchAll ⟨12, 0, 3, 0, 1⟩ [8])
    (fun x => decide (x.2 (0, 0) = some ⟨3, ⟨12, 0, 3, 0, 1⟩, [8]⟩ ∧
      x.1.delivered = [⟨7, 0, 0, ⟨4, 3, 1, some [8], 5, 0⟩⟩] ∧ x.1.purged 0 = true)) (by decide)
  obtain ⟨hr, hdelivered, hpurged⟩ := of_decide_eq_true hx
  obtain ⟨xs, run, hhist, -, -⟩ := run.of_guarded
  rw [hhist] at hr
  exact ⟨xs, x.1, _, run, hr, by decide, rfl, hdelivered, hpurged⟩

end Client

end Dans
