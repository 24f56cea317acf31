import Dans.Theorems.Idle

/-! Shutting the proxy scheduler down. The destructor wakes the threads that wait in the queue, but a thread in
    front of its throttle block waits for a decision, and a scheduling thread that leaves at the test of
    `_destructing` takes none. Whatever the targets, the secondary thread can be left there for good. -/

namespace Dans.Proxy

variable {W T : Type} [Fintype W] [DecidableEq W] {s s' : Sys W T} {l : Label W T} {targets : Fin 2 → Int}

/-- The destructor has released the queues, no job is live, a scheduling thread is in front of its block, and
    no thread can take a step. -/
structure Stranded (s : Sys W T) : Prop where
  destructing : s.destructing = true
  released : s.released = true
  live : s.th.live = []
  blocked : ∃ p, s.loop p = .inside ∧ s.th.pc (.inl p) = .block p ∧ s.th.th.throttleBlocks p = false
  scheduling : ∀ p, s.next (.loop p) = none
  workers : ∀ w, s.next (.worker w) = none
  completing : ∀ t serial, s.next (.complete t serial) = none

/-- After shutdown the primary thread has left and the secondary one is in front of its closed block. -/
structure Parked (s : Sys W T) : Prop where
  destructing : s.destructing = true
  released : s.released = true
  live : s.th.live = []
  left : s.loop 0 = .exited
  inside : s.loop 1 = .inside
  waits : s.th.pc (.inl 1) = .block 1
  closed : s.th.th.throttleBlocks 1 = false
  outside : ∀ w, ∃ ret, s.th.pc (.inr w) = .outside ret

theorem Parked.stranded (h : Parked s) : Stranded s where
  destructing := h.destructing
  released := h.released
  live := h.live
  blocked := ⟨1, h.inside, h.waits, h.closed⟩
  scheduling p := by
    fin_cases p
    · simp [Sys.next, Sys.turn, h.left]
    · simp [Sys.next, Sys.turn, h.inside, Throttle.Sys.next, Throttle.Sys.step, h.waits, h.closed]
  workers w := by
    obtain ⟨ret, hret⟩ := h.outside w
    simp [Sys.next, Throttle.Sys.next, Throttle.Sys.step, hret]
  completing t serial := by
    simp [Sys.next, Throttle.Sys.next, Throttle.Sys.complete, h.live]

/-- Only arrivals are left, and they change nothing for the threads. -/
theorem Parked.next (h : Parked s) (hn : s.next l = some s') : Parked s' := by
  cases l with
  | loop p => simp [h.stranded.scheduling p] at hn
  | worker w => simp [h.stranded.workers w] at hn
  | complete t serial => simp [h.stranded.completing t serial] at hn
  | destruct => simp [Sys.next, h.destructing] at hn
  | release => simp [Sys.next, h.released] at hn
  | arrive job =>
    obtain ⟨th, hth, rfl⟩ := Option.map_eq_some_iff.mp hn
    obtain ⟨hlive, hpc, hblocks⟩ : th.live = s.th.live ∧ th.pc = s.th.pc ∧ th.th = s.th.th := by
      cases Throttle.next_effect hth with
      | queueOp _ _ | fail => exact ⟨rfl, rfl, rfl⟩
    exact ⟨h.destructing, h.released, hlive ▸ h.live, h.left, h.inside, hpc ▸ h.waits, hblocks ▸ h.closed,
      fun w => hpc ▸ h.outside w⟩

/-! ### Jobs arrive, and the secondary thread runs alone -/

/-- The queue after arrivals only: `n` primary jobs, and the gate of the secondary list is open. -/
structure Loaded (n : Nat) (q : MultiQueue T) : Prop where
  valid : q.Valid
  maxPrio : q.maxPrio = 1
  primary : q.size 0 = n
  gate : q.notEmpty 1 = true
  flag : q.releaseOne 1 = false

/-- Only the secondary thread has moved. -/
def solo (q : MultiQueue T) (th : Throttler) (live : List (ThrottleJob T)) (serial : Nat) (c : Throttle.Pc T)
    (l : Loop) : Sys W T where
  th := { q := q, th := th, live := live, nextSerial := serial, abort := none
          pc := Function.update (fun _ => .outside none) (.inl kSecondaryPriority) c }
  loop := Function.update (fun _ => .test) kSecondaryPriority l
  destructing := false
  released := false

variable {q q' : MultiQueue T} {th : Throttler} {live : List (ThrottleJob T)} {serial n : Nat} {c : Throttle.Pc T}

theorem leads_of_next (h : s.next l = some s') : (system W T targets).Leads s s' := Lts.Leads.refl.step l h

theorem init_solo (h : Throttler.Accepts targets) :
    (system W T targets).init = solo (MultiQueue.new 1) (Throttler.new targets) [] 0 (.outside none) .test := by
  simp [system, solo, Throttle.start, h]

omit [Fintype W] in
theorem solo_free (hc : c.locked = false) : (solo q th live serial c .inside : Sys W T).th.StateFree := by
  intro u
  simp only [solo, Function.update_apply]
  split
  · exact hc
  · rfl

theorem solo_step {th' : Throttler} {live' : List (ThrottleJob T)} {serial' : Nat} {c' : Throttle.Pc T}
    (h : (solo q th live serial c .inside : Sys W T).th.step (.inl 1) =
      some (solo q' th' live' serial' c' .inside : Sys W T).th) :
    (solo q th live serial c .inside : Sys W T).next (.loop 1) = some (solo q' th' live' serial' c' (.after c')) := by
  simp only [Sys.next, Sys.turn]
  have hnext : (solo q th live serial c .inside : Sys W T).th.next (.step (.inl 1)) =
      some (solo q' th' live' serial' c' .inside : Sys W T).th := h
  rw [hnext]
  simp [solo, Sys.goto]

/-- A decision that finds enough primary work and no primary permission to give opens no block. -/
theorem solo_decides (targets : Fin 2 → Int) (live : List (ThrottleJob T)) (serial : Nat) {d : Throttle.Decision}
    (hprio : d = .afterScheduling 1 (some 0) ∨ d = .completing 1)
    (hgrants : th.grantsPrimary = false) (hhigh : th.throttleTargets 0 ≤ th.scheduledCounts 0 + q.size 0) :
    ∃ w, (system W T targets).Leads (solo q th live serial (.enter d) .inside)
      (solo q (th.setWaiting 1 w) live serial (.outside d.ret) (.process d.ret)) := by
  have hfree : (solo q th live serial (.enter d) .inside : Sys W T).th.StateFree := solo_free rfl
  obtain ⟨w, henter, hw⟩ : ∃ w, (solo q th live serial (.enter d) .inside : Sys W T).next (.loop 1) =
      some (solo q (th.setWaiting 1 w) live serial (.count d) .inside) ∧
        (d = .completing 1 ∨ (th.setWaiting 1 w).secondaryWaiting = false) := by
    rcases hprio with rfl | rfl
    · refine ⟨false, solo_step ?_, Or.inr rfl⟩
      simpa [Throttle.Sys.step, Throttle.Sys.lockState, Throttle.Sys.goto, solo] using hfree
    · refine ⟨th.secondaryWaiting, solo_step ?_, Or.inl rfl⟩
      simpa [Throttle.Sys.step, Throttle.Sys.lockState, Throttle.Sys.goto, solo, Throttler.setWaiting] using hfree
  set th' := th.setWaiting 1 w with hth'
  have hcount : (solo q th' live serial (.count d) .inside : Sys W T).next (.loop 1) =
      some (solo q th' live serial (.size d (th.scheduledCounts 0)) .inside) :=
    solo_step (by simp [Throttle.Sys.step, solo, Throttle.Sys.goto, hth', Throttler.setWaiting])
  have hsize : (solo q th' live serial (.size d (th.scheduledCounts 0)) .inside : Sys W T).next (.loop 1) =
      some (solo q th' live serial (.primary d (th.scheduledCounts 0 + q.size 0)) .inside) :=
    solo_step (by simp [Throttle.Sys.step, solo, Throttle.Sys.goto])
  have hprimary : (solo q th' live serial (.primary d (th.scheduledCounts 0 + q.size 0)) .inside : Sys W T).next (.loop 1) =
      some (solo q th' live serial (.secondary d (th.scheduledCounts 0 + q.size 0) false) .inside) := by
    have hgrants' : th'.grantsPrimary = false := hgrants
    exact solo_step (by simp [Throttle.Sys.step, solo, Throttle.Sys.goto, hgrants'])
  have hsecondary : (solo q th' live serial (.secondary d (th.scheduledCounts 0 + q.size 0) false) .inside : Sys W T).next
      (.loop 1) = some (solo q th' live serial (.outside d.ret) (.process d.ret)) := by
    have hhigh' : th'.throttleTargets 0 ≤ th.scheduledCounts 0 + q.size 0 := hhigh
    refine solo_step ?_
    rcases hw with rfl | hoff
    · simp [Throttle.Sys.step, Throttle.Sys.adjustLow, solo, Throttle.Sys.goto, hhigh']
    · cases d <;> simp [Throttle.Sys.step, Throttle.Sys.adjustLow, solo, Throttle.Sys.goto, hhigh', hoff]
  exact ⟨w, (leads_of_next henter).trans <| (leads_of_next hcount).trans <| (leads_of_next hsize).trans <|
    (leads_of_next hprimary).trans (leads_of_next hsecondary)⟩

theorem solo_calls {ret : Option Nat} :
    (solo q th live serial (.outside ret) .test : Sys W T).next (.loop 1) =
      some (solo q th live serial (.block 1) .inside) := by
  simp [Sys.next, Sys.turn, solo, Throttle.Sys.next, Throttle.Sys.goto, Sys.goto]

theorem solo_takes (targets : Fin 2 → Int) (loaded : Loaded n q) (hne : q.priorityQs 1 ≠ [])
    (hblock : th.throttleBlocks 1 = true) :
    ∃ q' j, q'.size 0 = n ∧ j.serial = 0 ∧ j.prio = 1 ∧ (system W T targets).Leads
      (solo q th [] 0 (.outside none) .test)
      (solo q' ((th.takeBlock 1).addCount 1 1) [j] 1 (.enter (.afterScheduling 1 (some 0))) .inside) := by
  obtain ⟨m, q₁, job, q₂, hpop, htake, -, -⟩ :=
    (loaded.valid.congr rfl rfl rfl rfl : (q.closeGate 1).Valid).pop hne
  have hempty : (q.priorityQs 1).isEmpty = false := by simpa using hne
  have hturn : q.dequeueTurn 1 = .returns q₂ (some job) := by
    simp [MultiQueue.dequeueTurn, loaded.gate, loaded.flag, hempty, hpop, htake]
  have hprio : job.priority = 1 := MultiQueue.dequeueTurn_priority hturn
  have hsize : q₂.size 0 = n := by
    have hframe := q.dequeueTurn_frame 1
    rw [hturn] at hframe
    rw [← loaded.primary, MultiQueue.size, hframe.1 0 (by decide)]
    rfl
  have hpass : (solo q th [] 0 (.block 1) .inside : Sys W T).next (.loop 1) =
      some (solo q (th.takeBlock 1) [] 0 (.queue 1) .inside) :=
    solo_step (by simp [Throttle.Sys.step, solo, Throttle.Sys.goto, hblock])
  have hdequeue : (solo q (th.takeBlock 1) [] 0 (.queue 1) .inside : Sys W T).next (.loop 1) =
      some (solo q₂ (th.takeBlock 1) [] 0 (.wrap 1 job) .inside) :=
    solo_step (by simp [Throttle.Sys.step, solo, Throttle.Sys.goto, hturn])
  have hwrap : (solo q₂ (th.takeBlock 1) [] 0 (.wrap 1 job) .inside : Sys W T).next (.loop 1) =
      some (solo q₂ ((th.takeBlock 1).addCount 1 1) [⟨0, job, 1, hprio⟩] 1 (.enter (.afterScheduling 1 (some 0))) .inside) :=
    solo_step (by simp [Throttle.Sys.step, Throttle.Sys.makeJob, ThrottleJob.ofJob, solo, hprio])
  exact ⟨q₂, ⟨0, job, 1, hprio⟩, hsize, rfl, rfl, (leads_of_next solo_calls).trans <| (leads_of_next hpass).trans <|
    (leads_of_next hdequeue).trans (leads_of_next hwrap)⟩

/-- The secondary thread in front of a closed block: the destructor runs, and the primary thread leaves. -/
theorem parked_of_closed (targets : Fin 2 → Int) (q : MultiQueue T) (hblock : th.throttleBlocks 1 = false) :
    ∃ t, (system W T targets).Leads (solo q th [] serial (.block 1) .inside) t ∧ Parked t :=
  ⟨_, Lts.Leads.refl.step .destruct rfl |>.step .release rfl |>.step (.loop 0) rfl, rfl, rfl, rfl, rfl, rfl, rfl, hblock,
    fun _ => ⟨none, rfl⟩⟩

theorem solo_completes {j : ThrottleJob T} (hserial : j.serial = 0) (hprio : j.prio = 1) :
    (solo q th [j] serial (.outside (some 0)) (.process (some 0)) : Sys W T).next (.complete (.inl 1) 0) =
      some (solo q (th.addCount 1 (-1)) [] serial (.enter (.completing 1)) .inside) := by
  have hmay : (solo q th [j] serial (.outside (some 0)) (.process (some 0)) : Sys W T).MayComplete (.inl 1) 0 := by
    intro p
    fin_cases p <;> simp [solo, Loop.processing]
  have hhand : (solo q th [j] serial (.outside (some 0)) (.process (some 0)) : Sys W T).th.NotInHand 0 := by
    intro u
    simp only [solo, Function.update_apply]
    split <;> simp [Throttle.Pc.hand, Throttle.Pc.decision]
  simp only [Sys.next, hmay, if_true]
  simp [solo] at hhand
  simp [solo, Sys.goto, Throttle.Sys.next, Throttle.Sys.complete, Throttle.Sys.goto, hserial, hprio, hhand]

theorem solo_parks (targets : Fin 2 → Int) {j : ThrottleJob T} (hserial : j.serial = 0) (hprio : j.prio = 1)
    (hgrants : th.grantsPrimary = false) (hhigh : th.throttleTargets 0 ≤ th.scheduledCounts 0 + q.size 0)
    (hblock : th.throttleBlocks 1 = false) : ∃ th', th'.throttleBlocks 1 = false ∧ (system W T targets).Leads
      (solo q th [j] serial (.outside (some 0)) (.process (some 0))) (solo q th' [] serial (.block 1) .inside) := by
  have hgrants' : (th.addCount 1 (-1)).grantsPrimary = false := hgrants
  obtain ⟨w, hdecides⟩ := solo_decides (W := W) targets [] serial (.inr rfl) hgrants' hhigh
  have hends : (solo q ((th.addCount 1 (-1)).setWaiting 1 w) [] serial (.outside none) (.process none) : Sys W T).next
      (.loop 1) = some (solo q ((th.addCount 1 (-1)).setWaiting 1 w) [] serial (.outside none) .test) := by
    simp [Sys.next, Sys.turn, solo, Sys.goto]
  exact ⟨(th.addCount 1 (-1)).setWaiting 1 w, hblock, (leads_of_next (solo_completes hserial hprio)).trans <|
    hdecides.trans <| (leads_of_next hends).trans (leads_of_next solo_calls)⟩

/-- With enough primary jobs queued, the secondary thread runs a job and goes back to a closed block. -/
theorem parked_after_job (loaded : Loaded n q) (hne : q.priorityQs 1 ≠ []) (hone : targets 1 ≠ 0) (hn : targets 0 ≤ n) :
    ∃ q' th', th'.throttleBlocks 1 = false ∧ (system W T targets).Leads
      (solo q (Throttler.new targets) [] 0 (.outside none) .test) (solo q' th' [] 1 (.block 1) .inside) := by
  have hblock : (Throttler.new targets).throttleBlocks 1 = true := by simpa [Throttler.new] using hone
  obtain ⟨q', j, hsize, hserial, hprio, htakes⟩ := solo_takes (W := W) targets loaded hne hblock
  -- A fresh throttler has a primary permission out, unless its primary target is 0.
  have hgrants : (((Throttler.new targets).takeBlock 1).addCount 1 1).grantsPrimary = false := by
    have hzero : (0 : Int) < targets 0 → targets 0 ≠ 0 := by omega
    simpa [Throttler.grantsPrimary, Throttler.new, Throttler.takeBlock, Throttler.addCount] using hzero
  have hhigh : targets 0 ≤ 0 + q'.size 0 := by rw [hsize]; omega
  obtain ⟨w, hdecides⟩ := solo_decides (W := W) targets [j] 1 (.inl rfl) hgrants hhigh
  have hgrants' : ((((Throttler.new targets).takeBlock 1).addCount 1 1).setWaiting 1 w).grantsPrimary = false := hgrants
  obtain ⟨th', hclosed, hparks⟩ := solo_parks (W := W) targets hserial hprio hgrants' hhigh rfl
  exact ⟨q', th', hclosed, htakes.trans (hdecides.trans hparks)⟩

/-! ### Shutdown -/

theorem Loaded.arrive (loaded : Loaded n q) (job : Job T) (hp : job.priority ≤ 1) :
    ∃ q', Loaded (n + if job.priority = 0 then 1 else 0) q' ∧ (job.priority = 1 → q'.priorityQs 1 ≠ []) ∧
      (solo q th live serial c .test : Sys W T).next (.arrive job) = some (solo q' th live serial c .test) := by
  have hle : job.priority ≤ q.maxPrio := by rwa [loaded.maxPrio]
  have hgates := MultiQueue.insertEntry_gates (q.insertNode job) job q.nextAddr
  have hlists : ((q.insertNode job).insertEntry job q.nextAddr).priorityQs =
      Function.update q.priorityQs job.priority (q.priorityQs job.priority ++ [⟨q.nextAddr, job.jobId⟩]) := by
    rw [MultiQueue.insertEntry_priorityQs, MultiQueue.insertNode_priorityQs]
  refine ⟨(q.insertNode job).insertEntry job q.nextAddr, ⟨(loaded.valid.enqueue hle).1, ?_, ?_, ?_, ?_⟩, fun hone => ?_, ?_⟩
  · simp [loaded.maxPrio]
  · rw [← loaded.primary, MultiQueue.size, hlists, MultiQueue.size]
    split
    · next hzero => simp [hzero]
    · next hzero => rw [Function.update_of_ne (Ne.symm hzero)]; rfl
  · rw [hgates.notEmpty]
    exact MultiQueue.insertNode_opened _ _ loaded.gate
  · rw [hgates.releaseOne, MultiQueue.insertNode_releaseOne]
    exact loaded.flag
  · rw [hlists, hone]
    simp
  · simp [Sys.next, solo, Throttle.Sys.next, Throttle.Sys.queueOp, MultiQueue.call, MultiQueue.enqueue, hle]

theorem loaded_of_arrivals (h : Throttler.Accepts targets) (data : T) (n : Nat) :
    ∃ q, Loaded n q ∧ (system W T targets).Leads (system W T targets).init
      (solo q (Throttler.new targets) [] 0 (.outside none) .test) := by
  induction n with
  | zero => exact ⟨MultiQueue.new 1, ⟨.new, rfl, rfl, rfl, rfl⟩, by rw [init_solo h]; exact Lts.Leads.refl⟩
  | succ n ih =>
    obtain ⟨q, loaded, hleads⟩ := ih
    obtain ⟨q', loaded', -, hnext⟩ := loaded.arrive (W := W) ⟨n, 0, 0, data⟩ (Nat.zero_le 1)
    exact ⟨q', loaded', hleads.trans (leads_of_next hnext)⟩

/-- Whatever targets the constructor accepts, shutting down can strand the secondary scheduling thread for
    good. -/
theorem shutdown_strands (h : Throttler.Accepts targets) (data : T) :
    ∃ xs s, (system W T targets).Run xs s ∧ ∀ t, (system W T targets).Leads s t → Stranded t := by
  obtain ⟨s, hleads, parked⟩ : ∃ s, (system W T targets).Leads (system W T targets).init s ∧ Parked s := by
    by_cases hone : targets 1 = 0
    · -- The constructor has locked the block of the secondary thread.
      have hclosed : (Throttler.new targets).throttleBlocks 1 = false := by simp [Throttler.new, hone]
      obtain ⟨s, hleads, parked⟩ := parked_of_closed (W := W) targets (MultiQueue.new 1) hclosed
      refine ⟨s, Lts.Leads.trans ?_ hleads, parked⟩
      rw [init_solo h]
      exact leads_of_next solo_calls
    · obtain ⟨q, loaded, harrivals⟩ := loaded_of_arrivals (W := W) h data (targets 0).toNat
      obtain ⟨q', loaded', hne, hnext⟩ := loaded.arrive (W := W) ⟨(targets 0).toNat, 1, 0, data⟩ le_rfl
      obtain ⟨q'', th, hclosed, hjob⟩ := parked_after_job (W := W) loaded' (hne rfl) hone (by simp)
      obtain ⟨s, hleads, parked⟩ := parked_of_closed (W := W) targets q'' hclosed
      exact ⟨s, harrivals.trans <| (leads_of_next hnext).trans <| hjob.trans hleads, parked⟩
  obtain ⟨xs, run⟩ := Lts.Run.init.leads hleads
  exact ⟨xs, s, run, fun t ht => (ht.invariant parked Parked.next).stranded⟩

theorem shutdown_strands_two_one : Throttler.Accepts ![2, 1] ∧ ∃ xs s, (system (Fin 1) Nat ![2, 1]).Run xs s ∧
    ∀ t, (system (Fin 1) Nat ![2, 1]).Leads s t → Stranded t :=
  ⟨by decide, shutdown_strands (by decide) 7⟩

/-- Targets 1 and 1, a job of each priority: the secondary job is completed while the primary one is queued,
    and the primary thread reads `_destructing` before it has called `Dequeue`. -/
theorem shutdown_strands_secondary : ∃ xs s, (system Empty Nat ![1, 1]).Run xs s ∧ Stranded s := by
  obtain ⟨xs, s, run, -, hs⟩ := Lts.run_of_exec_any (system Empty Nat ![1, 1])
    ([.arrive ⟨0, 0, 0, 7⟩, .arrive ⟨1, 1, 0, 7⟩] ++ List.replicate 9 (.loop 1) ++ [.complete (.inl 1) 0] ++
      List.replicate 7 (.loop 1) ++ [.destruct, .release, .loop 0])
    (fun s => decide (s.destructing = true ∧ s.released = true ∧ s.th.live = [] ∧ s.loop 0 = .exited ∧ s.loop 1 = .inside ∧
      s.th.pc (.inl 1) = .block 1 ∧ s.th.th.throttleBlocks 1 = false)) (by decide)
  obtain ⟨hdes, hrel, hlive, hleft, hin, hwaits, hclosed⟩ := of_decide_eq_true hs
  exact ⟨xs, s, run, Parked.stranded ⟨hdes, hrel, hlive, hleft, hin, hwaits, hclosed, nofun⟩⟩

end Dans.Proxy
