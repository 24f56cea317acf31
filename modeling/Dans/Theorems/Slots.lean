import Dans.Theorems.Limit

/-! Free primary slots. Every operation that frees one goes on to a decision that grants the permission for
    it, except `SetThrottle`, which raises the target and decides nothing. -/

namespace Dans.Throttle

variable {Tid T : Type}

/-- The thread has still to test the primary count, in a decision that is running, or in one that is about to run: of a
    completion, or of a `Dequeue` that has got a job. One that got `nullptr` has changed no count, and is not counted
    before its decision runs. -/
def Pc.deciding : Pc T → Bool
  | enter (.completing _) | enter (.afterScheduling _ (some _)) | count _ | size _ _ | primary _ _ => true
  | _ => false

/-- Between a change of a count and the end of the decision, in a decision, or with a primary job in hand. -/
def Pc.unsettled : Pc T → Bool
  | wrap p _ => p == kPrimaryPriority
  | enter (.completing _) | enter (.afterScheduling _ (some _)) => true
  | count _ | size _ _ | primary _ _ | secondary _ _ _ => true
  | _ => false

/-- No operation of the throttler is in a state that its decision has still to settle. -/
def Sys.Settled (s : Sys Tid T) : Prop := ∀ t, (s.pc t).unsettled = false

instance [Fintype Tid] (s : Sys Tid T) : Decidable s.Settled := inferInstanceAs (Decidable (∀ t, (s.pc t).unsettled = false))

theorem Pc.unsettled_of_deciding {c : Pc T} (h : c.deciding = true) : c.unsettled = true := by
  unfold Pc.deciding at h
  split at h <;> simp_all [Pc.unsettled]

/-- A free primary slot has its permission, or a decision that will grant it. -/
def Covered (th : Throttler) (pc : Tid → Pc T) : Prop :=
  th.primaryWaiting = true ∨ th.throttleTargets kPrimaryPriority ≤ th.scheduledCounts kPrimaryPriority ∨
    ∃ t, (pc t).deciding = true

variable [DecidableEq Tid] {s s' : Sys Tid T} {l : Label Tid T} {th th' : Throttler} {pc : Tid → Pc T} {t : Tid} {c : Pc T}

theorem Covered.update (h : Covered th pc) (hwait : th'.primaryWaiting = th.primaryWaiting)
    (htarget : th'.throttleTargets 0 = th.throttleTargets 0) (hcount : th.scheduledCounts 0 ≤ th'.scheduledCounts 0)
    (hc : (pc t).deciding = true → c.deciding = true) : Covered th' (Function.update pc t c) := by
  rcases h with hw | hle | ⟨u, hu⟩
  · exact Or.inl (hwait.trans hw)
  · exact Or.inr (Or.inl (htarget ▸ hle.trans hcount))
  · refine Or.inr (Or.inr ?_)
    by_cases hut : u = t
    · exact ⟨t, by simpa using hc (hut ▸ hu)⟩
    · exact ⟨u, by simpa [hut] using hu⟩

theorem covered_self (hc : c.deciding = true) : Covered th (Function.update pc t c) :=
  Or.inr (Or.inr ⟨t, by simpa using hc⟩)

/-- `SetThrottle` gives the primary priority a target above its count only while a permission is
    outstanding, or while a completion or a `Dequeue` with a job has still to test the primary count. -/
def raisesCovered [Fintype Tid] (s : Sys Tid T) : Label Tid T → Bool
  | .setThrottle p threshold => p != kPrimaryPriority || s.th.primaryWaiting ||
      decide (threshold ≤ s.th.scheduledCounts kPrimaryPriority) || decide (∃ t, (s.pc t).deciding = true)
  | _ => true

theorem Covered.effect [Fintype Tid] (h : Covered s.th s.pc) (hok : raisesCovered s l = true) (he : Effect s l s') :
    Covered s'.th s'.pc := by
  cases he with
  | again _ _ | queueOp _ _ | fail => exact h
  | clear pc _ | enter pc _ | count pc | size pc | complete pc _ _ | wrap pc _ => exact covered_self rfl
  | grant pc _ => exact Or.inl rfl
  | keep pc grants =>
    simp only [Throttler.grantsPrimary, Bool.and_eq_false_iff, decide_eq_false_iff_not, Int.not_lt, Bool.not_eq_false']
      at grants
    exact grants.symm.imp_right Or.inl
  | low pc _ => exact h.update rfl rfl le_rfl (by simp [pc, Pc.deciding])
  | call pc | block pc _ | null pc _ | job pc _ | hold pc _ | sendAway pc _ =>
    exact h.update rfl rfl le_rfl (by simp [pc, Pc.deciding])
  | @setThrottle p threshold a free =>
    by_cases hp : p = 0
    · subst hp
      simpa [raisesCovered, Covered, Throttler.setTarget, or_assoc] using hok
    · simpa [Covered, Throttler.setTarget, Ne.symm hp] using h

variable [Fintype Tid] {targets : Fin 2 → Int} {xs : List (Sys Tid T × Label Tid T)}

omit [DecidableEq Tid] [Fintype Tid] in
theorem Covered.start : Covered (start Tid T targets).th (start Tid T targets).pc := by
  by_cases htarget : targets 0 = 0
  · exact Or.inr (Or.inl (by simp [Throttle.start, Throttler.new, htarget]))
  · exact Or.inl (by simp [Throttle.start, Throttler.new, htarget])

/-- No free primary slot is forgotten in a run in which `SetThrottle` raises the primary target above the
    count only while a permission is outstanding, or while a completion or a `Dequeue` with a job has still to decide. -/
theorem free_slot_waits (run : (system Tid T targets).Run xs s)
    (hok : Lts.Meets (fun s l => raisesCovered s l = true) xs) (settled : s.Settled)
    (hfree : s.th.scheduledCounts 0 < s.th.throttleTargets 0) :
    s.th.primaryWaiting = true ∧ (s.th.throttleBlocks 0 = true ∨ ∃ t, (s.pc t).token = some 0) := by
  have hcovered : Covered s.th s.pc :=
    run.invariant (P := fun s => Covered s.th s.pc) hok Covered.start fun _ h hok hn => h.effect hok (next_effect hn)
  have hwait : s.th.primaryWaiting = true := by
    rcases hcovered with hw | hle | ⟨t, ht⟩
    · exact hw
    · exact absurd hfree (Int.not_lt.mpr hle)
    · have := Pc.unsettled_of_deciding ht
      simp [settled t] at this
  exact ⟨hwait, ((base_of_run run).tokens.waiting 0).mp hwait⟩

/-- A primary job has been scheduled and has completed: its slot has its permission again. -/
theorem free_slot_waits_one : ∃ xs s, (system (Fin 2) Nat ![1, 1]).Run xs s ∧ s.nextSerial = 1 ∧ s.Settled ∧
    s.th.scheduledCounts 0 < s.th.throttleTargets 0 ∧ s.th.primaryWaiting = true ∧
    (s.th.throttleBlocks 0 = true ∨ ∃ t, (s.pc t).token = some 0) := by
  obtain ⟨xs, s, run, -, hs⟩ := Lts.run_of_exec_any
    ((system (Fin 2) Nat ![1, 1]).restrict fun s l => raisesCovered s l = true)
    (.queueOp (.enqueue ⟨7, 0, 0, 5⟩) :: .dequeue 0 0 :: List.replicate 8 (.step 0) ++
      .complete 1 0 :: List.replicate 5 (.step 1))
    (fun s => decide (s.nextSerial = 1 ∧ s.Settled ∧ s.th.scheduledCounts 0 < s.th.throttleTargets 0)) (by decide)
  obtain ⟨run, hok⟩ := run.of_restrict
  obtain ⟨hserial, settled, hfree⟩ := of_decide_eq_true hs
  exact ⟨xs, s, run, hserial, settled, hfree, free_slot_waits run hok settled hfree⟩

/-- Targets 0 and 1, then `SetThrottle(0, 1)`: a primary slot is free, nothing is in progress, and no
    primary permission is outstanding. -/
theorem setThrottle_forgets_slot : ∃ xs s, (system (Fin 1) Nat ![0, 1]).Run xs s ∧
    xs.map Prod.snd = [.setThrottle 0 1] ∧ s.abort = none ∧ s.Settled ∧
    s.th.scheduledCounts 0 < s.th.throttleTargets 0 ∧ s.th.primaryWaiting = false := by
  obtain ⟨xs, s, run, hls, hs⟩ := Lts.run_of_exec_any (system (Fin 1) Nat ![0, 1]) [.setThrottle 0 1]
    (fun s => decide (s.abort = none ∧ s.Settled ∧ s.th.scheduledCounts 0 < s.th.throttleTargets 0 ∧
      s.th.primaryWaiting = false)) (by decide)
  exact ⟨xs, s, run, hls, of_decide_eq_true hs⟩

end Dans.Throttle
