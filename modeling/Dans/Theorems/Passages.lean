import Dans.Theorems.Limit
import Dans.Theorems.Refinement

/-! The way of a job through the throttler: from the queue into the hands of a thread that makes a `ThrottleJob` of it, to
    the live jobs, until its destructor takes it out of them. -/

namespace Dans.Throttle
open Tally

variable {Tid T : Type}

/-- The queue, a thread behind its `Dequeue` or a `ThrottleJob` has the job. -/
def Sys.Has (s : Sys Tid T) (job : Job T) : Prop :=
  (∃ p, job ∈ s.q.jobs p) ∨ (∃ t p, s.pc t = .wrap p job) ∨ ∃ tj ∈ s.live, tj.job = job

/-- The thread has taken a job out of the queue that is not counted yet. -/
def Pc.carries (f : Job T → Bool) : Pc T → Nat
  | wrap _ job => if f job then 1 else 0
  | _ => 0

/-- How many jobs that meet `f` are in the queue of two priorities. -/
def Sys.waiting (s : Sys Tid T) (f : Job T → Bool) : Nat := s.q.jobs.count (Finset.range 2) f

/-- How many jobs that meet `f` were taken out of the queue and are not completed. -/
def Sys.outstanding [Fintype Tid] (s : Sys Tid T) (f : Job T → Bool) : Nat :=
  tally (Pc.carries f) s.pc + s.live.countP (f ·.job)

variable [DecidableEq Tid] {s s' : Sys Tid T} {l : Label Tid T}

/-- The label is about a job that is in the queue, or live, or about to be. -/
def Label.handles : Label Tid T → Bool
  | .complete _ _ | .queueOp (.enqueue _) | .queueOp (.purge _) => true
  | _ => false

/-- What a step does with the jobs: nothing, or it takes one out of the queue, makes a `ThrottleJob` of it, completes it,
    or calls an operation of the queue. -/
inductive Passes (s s' : Sys Tid T) : Label Tid T → Prop where
  | stay {l : Label Tid T} (why : l.handles = false ∨ s'.abort.isSome = true) (jobs : s'.q.jobs = s.q.jobs)
      (live : s'.live = s.live)
      (pc : s'.pc = s.pc ∨ ∃ t c, s'.pc = Function.update s.pc t c ∧ ∀ f, (s.pc t).carries f = 0 ∧ c.carries f = 0) :
      Passes s s' l
  | take {t : Tid} {p : Fin 2} {job : Job T} (pc : s.pc t = .queue p) (pops : s.q.jobs.Pops p job s'.q.jobs)
      (live : s'.live = s.live) (after : s'.pc = Function.update s.pc t (.wrap p job)) : Passes s s' (.step t)
  | make {t : Tid} {p : Fin 2} {job : Job T} {tj : ThrottleJob T} {d : Decision} (pc : s.pc t = .wrap p job)
      (jobs : s'.q.jobs = s.q.jobs) (own : tj.job = job) (live : s'.live = s.live ++ [tj])
      (after : s'.pc = Function.update s.pc t (.enter d)) : Passes s s' (.step t)
  | complete {t : Tid} {serial : Nat} {tj : ThrottleJob T} {ret : Option Nat} {d : Decision} (pc : s.pc t = .outside ret)
      (found : s.live.find? (·.serial == serial) = some tj) (jobs : s'.q.jobs = s.q.jobs)
      (live : s'.live = s.live.eraseP (·.serial == serial)) (after : s'.pc = Function.update s.pc t (.enter d)) :
      Passes s s' (.complete t serial)
  | enqueue {job : Job T} (le : job.priority ≤ s.q.maxPrio) (jobs : s'.q.jobs = s.q.jobs.push job.priority job)
      (live : s'.live = s.live) (pc : s'.pc = s.pc) : Passes s s' (.queueOp (.enqueue job))
  | purge {id : JobId} (jobs : s'.q.jobs = s.q.jobs.drop (·.jobId == id)) (live : s'.live = s.live) (pc : s'.pc = s.pc) :
      Passes s s' (.queueOp (.purge id))

/-- The queue is valid and has two priorities. -/
def Sys.Sound (s : Sys Tid T) : Prop := s.q.Valid ∧ s.q.maxPrio = 1

omit [DecidableEq Tid] in
theorem Sys.Sound.of_turn (h : s.Sound) {q : MultiQueue T} {p : Fin 2} {ret : Option (Job T)}
    (hturn : s.q.dequeueTurn p = .returns q ret) : q.Valid ∧ q.maxPrio = 1 ∧
      match ret with
      | none => q.jobs = s.q.jobs
      | some job => s.q.jobs.Pops p job q.jobs := by
  have hstep := h.1.dequeueTurn p
  rw [hturn] at hstep
  cases ret with
  | none => exact ⟨hstep.1, hstep.2.1.trans h.2, hstep.2.2⟩
  | some job => exact ⟨hstep.1, hstep.2.1.trans h.2, hstep.2.2⟩

theorem Effect.passes (he : Effect s l s') (h : s.Sound) : s'.Sound ∧ Passes s s' l := by
  have goto : ∀ {t : Tid} {c : Pc T} {r : Sys Tid T} {l : Label Tid T}, l.handles = false → r.q.jobs = s.q.jobs →
      r.live = s.live → r.pc = Function.update s.pc t c → (∀ f, (s.pc t).carries f = 0) → (∀ f, c.carries f = 0) →
      Passes s r l := fun hl hjobs hlive hpc hold hnew =>
    .stay (Or.inl hl) hjobs hlive (Or.inr ⟨_, _, hpc, fun f => ⟨hold f, hnew f⟩⟩)
  cases he with
  | @again t p q pc turn =>
    have hstep := h.1.dequeueTurn p
    rw [turn] at hstep
    exact ⟨⟨hstep.1, hstep.2.1.trans h.2⟩, .stay (Or.inl rfl) hstep.2.2 rfl (Or.inl rfl)⟩
  | @null t p q pc turn =>
    obtain ⟨hvalid, hmax, hjobs⟩ := h.of_turn turn
    exact ⟨⟨hvalid, hmax⟩, goto rfl hjobs rfl rfl (fun _ => by rw [pc]; rfl) fun _ => rfl⟩
  | @job t p q job pc turn =>
    obtain ⟨hvalid, hmax, hpops⟩ := h.of_turn turn
    exact ⟨⟨hvalid, hmax⟩, .take pc hpops rfl rfl⟩
  | wrap pc hp => exact ⟨h, .make pc rfl rfl rfl rfl⟩
  | sendAway pc _ =>
    refine ⟨⟨h.1.congr (by simp) (by simp) (by simp) (by simp), by simpa using h.2⟩, ?_⟩
    exact goto rfl (MultiQueue.jobs_congr (by simp) (by simp)) rfl rfl (fun _ => by rw [pc]; rfl) fun _ => rfl
  | complete pc found _ => exact ⟨h, .complete pc found rfl rfl rfl⟩
  | setThrottle _ => exact ⟨h, .stay (Or.inl rfl) rfl rfl (Or.inl rfl)⟩
  | @queueOp op q ret other done =>
    have hresult : (s.q.call op).result = .ok (q, ret.handed) := by rw [done]; rfl
    obtain ⟨hrange, hvalid, hmax, hlists⟩ := h.1.result hresult
    refine ⟨⟨hvalid, hmax.trans h.2⟩, ?_⟩
    cases op with
    | enqueue job => exact .enqueue hrange hlists rfl rfl
    | purge id => exact .purge hlists rfl rfl
    | dequeue p => exact absurd rfl (other p)
    | releaseOne p => exact .stay (Or.inl rfl) hlists rfl (Or.inl rfl)
    | releaseQueues => exact .stay (Or.inl rfl) hlists rfl (Or.inl rfl)
  | fail => exact ⟨h, .stay (Or.inr rfl) rfl rfl (Or.inl rfl)⟩
  | call pc | block pc _ | clear pc _ | enter pc _ | count pc | size pc | grant pc _ | keep pc _ | hold pc _ | low pc _ =>
    exact ⟨h, goto rfl rfl rfl rfl (fun _ => by rw [pc]; rfl) fun _ => rfl⟩

/-! ### Where the jobs are -/

theorem has_update {t : Tid} {c : Pc T} {job : Job T} (hpc : s'.pc = Function.update s.pc t c)
    (hc : ∀ p, c = .wrap p job → s.Has job) (h : ∃ u p, s'.pc u = .wrap p job) : s.Has job := by
  obtain ⟨u, p, hu⟩ := h
  rw [hpc, Function.update_apply] at hu
  split at hu
  · exact hc p hu
  · exact Or.inr (Or.inl ⟨u, p, hu⟩)

/-- Only an `Enqueue` brings a new job. -/
theorem Passes.has (h : Passes s s' l) {job : Job T} (hjob : s'.Has job) :
    s.Has job ∨ l = .queueOp (.enqueue job) := by
  cases h with
  | stay _ jobs live pc =>
    refine Or.inl ?_
    rcases hjob with ⟨p, hp⟩ | hpc | ⟨tj, htj, hj⟩
    · exact Or.inl ⟨p, jobs ▸ hp⟩
    · rcases pc with pc | ⟨t, c, pc, hnone⟩
      · exact Or.inr (Or.inl (by rwa [pc] at hpc))
      · refine has_update pc (fun p hp => ?_) hpc
        have hcarries := (hnone fun _ => true).2
        rw [hp] at hcarries
        cases hcarries
    · exact Or.inr (Or.inr ⟨tj, live ▸ htj, hj⟩)
  | @take t p job' pc pops live after =>
    refine Or.inl ?_
    obtain ⟨rest, hlist, hjobs⟩ := pops
    have htaken : s.Has job' := Or.inl ⟨p, by rw [hlist]; exact List.mem_cons_self⟩
    rcases hjob with ⟨p', hp'⟩ | hpc | ⟨tj, htj, hj⟩
    · rw [hjobs, Function.update_apply] at hp'
      split at hp'
      · exact Or.inl ⟨p, by rw [hlist]; exact List.mem_cons_of_mem _ hp'⟩
      · exact Or.inl ⟨p', hp'⟩
    · refine has_update after (fun q hq => ?_) hpc
      cases hq
      exact htaken
    · exact Or.inr (Or.inr ⟨tj, live ▸ htj, hj⟩)
  | @make t p job' tj d pc jobs own live after =>
    refine Or.inl ?_
    rcases hjob with ⟨p', hp'⟩ | hpc | ⟨tj', htj, hj⟩
    · exact Or.inl ⟨p', jobs ▸ hp'⟩
    · exact has_update after (fun q hq => by cases hq) hpc
    · rw [live] at htj
      rcases List.mem_append.mp htj with htj | htj
      · exact Or.inr (Or.inr ⟨tj', htj, hj⟩)
      · rw [List.mem_singleton.mp htj, own] at hj
        exact Or.inr (Or.inl ⟨t, p, hj ▸ pc⟩)
  | complete pc found jobs live after =>
    refine Or.inl ?_
    rcases hjob with ⟨p', hp'⟩ | hpc | ⟨tj', htj, hj⟩
    · exact Or.inl ⟨p', jobs ▸ hp'⟩
    · exact has_update after (fun q hq => by cases hq) hpc
    · exact Or.inr (Or.inr ⟨tj', List.mem_of_mem_eraseP (live ▸ htj), hj⟩)
  | @enqueue job' le jobs live pc =>
    rcases hjob with ⟨p, hp⟩ | hpc | ⟨tj, htj, hj⟩
    · rw [jobs, Fifo.push_apply] at hp
      split at hp
      · rcases List.mem_append.mp hp with hp | hp
        · exact Or.inl (Or.inl ⟨p, hp⟩)
        · rw [List.mem_singleton.mp hp]
          exact Or.inr rfl
      · exact Or.inl (Or.inl ⟨p, hp⟩)
    · exact Or.inl (Or.inr (Or.inl (by rwa [pc] at hpc)))
    · exact Or.inl (Or.inr (Or.inr ⟨tj, live ▸ htj, hj⟩))
  | purge jobs live pc =>
    refine Or.inl ?_
    rcases hjob with ⟨p, hp⟩ | hpc | ⟨tj, htj, hj⟩
    · rw [jobs] at hp
      exact Or.inl ⟨p, (List.mem_filter.mp hp).1⟩
    · exact Or.inr (Or.inl (by rwa [pc] at hpc))
    · exact Or.inr (Or.inr ⟨tj, live ▸ htj, hj⟩)

variable [Fintype Tid] {f : Job T → Bool}

omit [DecidableEq Tid] in
/-- A job that is somewhere is counted there. -/
theorem Sys.Has.counted (sound : s.Sound) {job : Job T} (h : s.Has job) (hf : f job = true) :
    0 < s.waiting f + s.outstanding f := by
  rcases h with ⟨p, hp⟩ | ⟨t, p, ht⟩ | ⟨tj, htj, rfl⟩
  · have hrange : p ∈ Finset.range 2 := by
      by_contra hout
      have hlt : s.q.maxPrio < p := by
        rw [sound.2]
        exact Nat.lt_of_not_le fun hle => hout (Finset.mem_range.mpr (Nat.lt_succ_of_le hle))
      simp [MultiQueue.jobs, sound.1.bounded p hlt] at hp
    exact Nat.add_pos_left (Fifo.count_pos hrange hp hf) _
  · have hone := le_tally (Pc.carries f) s.pc t
    rw [ht, Pc.carries, if_pos hf] at hone
    exact Nat.add_pos_right _ (Nat.add_pos_left hone _)
  · exact Nat.add_pos_right _ (Nat.add_pos_right _ (List.countP_pos_iff.mpr ⟨tj, htj, hf⟩))

omit [DecidableEq Tid] [Fintype Tid] in
theorem waiting_of_jobs (h : s'.q.jobs = s.q.jobs) (f : Job T → Bool) : s'.waiting f = s.waiting f := by
  rw [Sys.waiting, h, Sys.waiting]

omit [DecidableEq Tid] in
theorem outstanding_of_same (hpc : s'.pc = s.pc) (hlive : s'.live = s.live) (f : Job T → Bool) :
    s'.outstanding f = s.outstanding f := by
  rw [Sys.outstanding, hpc, hlive, Sys.outstanding]

theorem outstanding_of_stay (hlive : s'.live = s.live)
    (hpc : s'.pc = s.pc ∨ ∃ t c, s'.pc = Function.update s.pc t c ∧ ∀ f, (s.pc t).carries f = 0 ∧ c.carries f = 0) :
    s'.outstanding f = s.outstanding f := by
  rcases hpc with hpc | ⟨t, c, hpc, hnone⟩
  · exact outstanding_of_same hpc hlive f
  · have hmove := tally_update (Pc.carries f) s.pc t c
    obtain ⟨hold, hnew⟩ := hnone f
    rw [Sys.outstanding, Sys.outstanding, hpc, hlive]
    omega

theorem outstanding_of_take {t : Tid} {p : Fin 2} {job : Job T} (hpc : s.pc t = .queue p) (hlive : s'.live = s.live)
    (hafter : s'.pc = Function.update s.pc t (.wrap p job)) :
    s'.outstanding f = s.outstanding f + if f job then 1 else 0 := by
  have hmove := tally_update (Pc.carries f) s.pc t (.wrap p job)
  rw [hpc] at hmove
  simp only [Pc.carries] at hmove
  rw [Sys.outstanding, Sys.outstanding, hafter, hlive]
  omega

theorem outstanding_of_make {t : Tid} {p : Fin 2} {tj : ThrottleJob T} {d : Decision} (hpc : s.pc t = .wrap p tj.job)
    (hlive : s'.live = s.live ++ [tj]) (hafter : s'.pc = Function.update s.pc t (.enter d)) :
    s'.outstanding f = s.outstanding f := by
  have hmove := tally_update (Pc.carries f) s.pc t (.enter d)
  rw [hpc] at hmove
  simp only [Pc.carries] at hmove
  rw [Sys.outstanding, Sys.outstanding, hafter, hlive, List.countP_append, List.countP_singleton]
  omega

theorem outstanding_of_complete {t : Tid} {serial : Nat} {tj : ThrottleJob T} {ret : Option Nat} {d : Decision}
    (hpc : s.pc t = .outside ret) (hfound : s.live.find? (·.serial == serial) = some tj)
    (hlive : s'.live = s.live.eraseP (·.serial == serial)) (hafter : s'.pc = Function.update s.pc t (.enter d)) :
    s.outstanding f = s'.outstanding f + if f tj.job then 1 else 0 := by
  have hmove := tally_update (Pc.carries f) s.pc t (.enter d)
  rw [hpc] at hmove
  simp only [Pc.carries] at hmove
  obtain ⟨hj, before, after, heq, hbefore⟩ := List.find?_eq_some_iff_append.mp hfound
  have hskip : ∀ x ∈ before, ¬(x.serial == serial) = true := fun x hx => by simpa using hbefore x hx
  have herase : (tj :: after).eraseP (·.serial == serial) = after := List.eraseP_cons_of_pos hj
  rw [heq, List.eraseP_append_right _ hskip, herase] at hlive
  rw [Sys.outstanding, Sys.outstanding, hafter, hlive, heq]
  simp only [List.countP_append, List.countP_cons]
  omega

omit [DecidableEq Tid] in
/-- Jobs that are told apart are counted together. -/
theorem sum_outstanding_le {f : Nat → Job T → Bool} {g : Job T → Bool} {js : Finset Nat}
    (h : ∀ job, s.Has job → (∑ j ∈ js, if f j job then 1 else 0) ≤ if g job then 1 else 0) :
    ∑ j ∈ js, s.outstanding (f j) ≤ s.outstanding g := by
  have hlive : ∀ l : List (ThrottleJob T), (∀ tj ∈ l, s.Has tj.job) →
      ∑ j ∈ js, l.countP (f j ·.job) ≤ l.countP (g ·.job) := by
    intro l hl
    induction l with
    | nil => simp
    | cons tj l ih =>
      obtain ⟨htj, hl⟩ := List.forall_mem_cons.mp hl
      simp only [List.countP_cons, Finset.sum_add_distrib]
      exact Nat.add_le_add (ih hl) (h tj.job htj)
  have hpc : ∑ j ∈ js, tally (Pc.carries (f j)) s.pc ≤ tally (Pc.carries g) s.pc := by
    unfold tally
    rw [Finset.sum_comm]
    refine Finset.sum_le_sum fun t _ => ?_
    cases ht : s.pc t with
    | wrap p job => exact h job (Or.inr (Or.inl ⟨t, p, ht⟩))
    | _ => exact (Finset.sum_eq_zero fun _ _ => rfl).le
  simp only [Sys.outstanding, Finset.sum_add_distrib]
  exact Nat.add_le_add hpc (hlive s.live fun tj htj => Or.inr (Or.inr ⟨tj, htj, rfl⟩))

/-- No two live jobs have one serial. -/
structure Serials (s : Sys Tid T) : Prop where
  nodup : (s.live.map (·.serial)).Nodup
  lt : ∀ tj ∈ s.live, tj.serial < s.nextSerial

omit [Fintype Tid] in
theorem Serials.effect (h : Serials s) (he : Effect s l s') : Serials s' := by
  cases he with
  | wrap pc hp =>
    constructor
    · rw [List.map_append, List.map_singleton]
      refine List.nodup_append.mpr ⟨h.nodup, List.nodup_singleton _, ?_⟩
      intro n hn m hm
      obtain ⟨tj, htj, rfl⟩ := List.mem_map.mp hn
      rw [List.mem_singleton.mp hm]
      exact Nat.ne_of_lt (h.lt tj htj)
    · intro tj htj
      rcases List.mem_append.mp htj with htj | htj
      · exact Nat.lt_succ_of_lt (h.lt tj htj)
      · rw [List.mem_singleton.mp htj]
        exact Nat.lt_succ_self _
  | complete pc found free =>
    exact ⟨h.nodup.sublist (List.eraseP_sublist.map _), fun tj htj => h.lt tj (List.mem_of_mem_eraseP htj)⟩
  | call _ | block _ _ | again _ _ | null _ _ | job _ _ | clear _ _ | enter _ _ | count _ | size _ | grant _ _ | keep _ _
  | hold _ _ | sendAway _ _ | low _ _ | setThrottle _ | queueOp _ _ | fail => exact ⟨h.nodup, h.lt⟩

/-! ### The limit -/

variable {targets : Fin 2 → Int} {xs : List (Sys Tid T × Label Tid T)} {p : Fin 2}

theorem under_of_run (run : (system Tid T targets).Run xs s) (hn : ∀ p, 0 ≤ targets p) :
    ∀ p, Under (inForce xs s p) s.th s.pc p := by
  induction run with
  | init =>
    have hnow : ∀ p, targets p ∈ inForce [] (system Tid T targets).init p := fun p => List.mem_singleton_self _
    refine fun p => ⟨⟨targets p, hnow p, hn p⟩, fun hunspent => ⟨targets p, hnow p, ?_⟩⟩
    have hne : targets p ≠ 0 := by
      simpa [Unspent, system, start, Throttler.new, Pc.unspent] using hunspent
    exact lt_of_le_of_ne (hn p) hne.symm
  | step run hnext ih => exact Under.effect ih (base_of_run run) (next_effect hnext)

/-- The jobs of a priority that were taken out of the queue and are not completed are at most as many as its target:
    one that is not counted yet has been taken with a permission that was given below the target. -/
theorem outstanding_le_target (run : (system Tid T targets).Run xs s) (hn : ∀ p, 0 ≤ targets p)
    (hxs : ∀ x ∈ xs, ∀ v, x.2 ≠ .setThrottle p v) : (s.outstanding (·.priority == p.val) : Int) ≤ targets p := by
  have hbase := base_of_run run
  have hunder := under_of_run run hn p
  have hall := inForce_unchanged run hxs
  have hlive : s.live.countP (·.job.priority == p.val) = s.live.countP (·.prio == p) := by
    refine List.countP_congr fun tj _ => ?_
    rw [beq_iff_eq, beq_iff_eq, tj.counted]
    exact Fin.val_inj
  have hcount := hbase.counted p
  have hcarried : ∀ t, 0 < (s.pc t).carries (·.priority == p.val) → (s.pc t).unspent = some p := by
    intro t ht
    cases hpc : s.pc t with
    | wrap p' job =>
      rw [hpc] at ht
      simp only [Pc.carries] at ht
      split at ht
      · next hp =>
        have hjob := hbase.wraps t p' job hpc
        rw [Pc.unspent, ← Fin.val_inj.mp (hjob.symm.trans (beq_iff_eq.mp hp))]
      · cases ht
    | _ =>
      rw [hpc] at ht
      cases ht
  have hone : tally (Pc.carries (·.priority == p.val)) s.pc ≤ 1 := by
    refine tally_le_one (fun t => ?_) fun t u ht hu => hbase.tokens.one p t u (Pc.token_of_unspent (hcarried t ht))
      (Pc.token_of_unspent (hcarried u hu))
    cases s.pc t with
    | wrap _ _ =>
      rw [Pc.carries]
      split <;> omega
    | _ => exact Nat.zero_le 1
  rw [Sys.outstanding, hlive]
  by_cases hpos : 0 < tally (Pc.carries (·.priority == p.val)) s.pc
  · obtain ⟨t, ht⟩ := exists_of_tally_pos hpos
    obtain ⟨v, hv, hlt⟩ := hunder.lt (Or.inr ⟨t, hcarried t ht⟩)
    rw [hall v hv] at hlt
    omega
  · obtain ⟨v, hv, hle⟩ := hunder.le
    rw [hall v hv] at hle
    omega

end Dans.Throttle
