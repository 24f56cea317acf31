import Mathlib.Data.Fin.VecNotation
import Dans.Theorems.ThrottlerSteps

/-! The throttle limit: the scheduled jobs of a priority never outnumber the largest target that has been in
    force for it. A permission is granted below a target, and until it is spent nobody else can schedule. -/

namespace Dans.Throttle

variable {Tid T : Type} {th th' : Throttler} {pc : Tid → Pc T} {p : Fin 2}

/-- The priority of a permission that the thread has taken and not yet spent on a job. -/
def Pc.unspent : Pc T → Option (Fin 2)
  | queue p | wrap p _ => some p
  | _ => none

theorem Pc.token_of_unspent {c : Pc T} (h : c.unspent = some p) : c.token = some p := by
  cases c <;> simp_all [Pc.unspent, Pc.token]

/-- A permission is outstanding that can still be spent on a job. -/
def Unspent (th : Throttler) (pc : Tid → Pc T) (p : Fin 2) : Prop :=
  th.throttleBlocks p = true ∨ ∃ t, (pc t).unspent = some p

/-- The count is at most one of the values, and below one of them while a permission is unspent. -/
structure Under (vs : List Int) (th : Throttler) (pc : Tid → Pc T) (p : Fin 2) : Prop where
  le : ∃ v ∈ vs, th.scheduledCounts p ≤ v
  lt : Unspent th pc p → ∃ v ∈ vs, th.scheduledCounts p < v

/-- The targets of a priority in the states of a run. -/
def inForce (xs : List (Sys Tid T × Label Tid T)) (s : Sys Tid T) (p : Fin 2) : List Int :=
  xs.map (fun x => x.1.th.throttleTargets p) ++ [s.th.throttleTargets p]

theorem inForce_mono {xs : List (Sys Tid T × Label Tid T)} {s s' : Sys Tid T} {l : Label Tid T} :
    inForce xs s p ⊆ inForce (xs ++ [(s, l)]) s' p := by
  simp [inForce]

variable [DecidableEq Tid] {s s' : Sys Tid T} {l : Label Tid T} {vs vs' : List Int} {t : Tid} {c : Pc T}

theorem Unspent.of_update (h : Unspent th' (Function.update pc t c) p)
    (hblock : th'.throttleBlocks p = true → th.throttleBlocks p = true)
    (hc : c.unspent = some p → th.throttleBlocks p = true ∨ (pc t).unspent = some p) : Unspent th pc p := by
  rcases h with hb | ⟨u, hu⟩
  · exact Or.inl (hblock hb)
  · rw [Function.update_apply] at hu
    split at hu
    · exact (hc hu).imp_right fun ht => ⟨t, ht⟩
    · exact Or.inr ⟨u, hu⟩

theorem Unspent.of_spent (h : Unspent th' (Function.update pc t c) p)
    (hblock : th'.throttleBlocks p = true → th.throttleBlocks p = true) (hc : c.unspent = none) : Unspent th pc p :=
  h.of_update hblock (by simp [hc])

omit [DecidableEq Tid] in
theorem Under.mono {pc' : Tid → Pc T} (h : Under vs th pc p) (hvs : vs ⊆ vs')
    (hcount : th'.scheduledCounts p ≤ th.scheduledCounts p)
    (hspent : Unspent th' pc' p → Unspent th pc p) : Under vs' th' pc' p where
  le := by
    obtain ⟨v, hv, hle⟩ := h.le
    exact ⟨v, hvs hv, hcount.trans hle⟩
  lt hunspent := by
    obtain ⟨v, hv, hlt⟩ := h.lt (hspent hunspent)
    exact ⟨v, hvs hv, hcount.trans_lt hlt⟩

/-- The step that spends a permission on a job. -/
theorem Under.spend (h : Under vs th pc p) (tokens : Tokens th pc) (hvs : vs ⊆ vs') {job : Job T}
    (hpc : pc t = .wrap p job) (hc : c.unspent = none) :
    Under vs' (th.addCount p 1) (Function.update pc t c) p where
  le := by
    obtain ⟨v, hv, hlt⟩ := h.lt (Or.inr ⟨t, by simp [hpc, Pc.unspent]⟩)
    refine ⟨v, hvs hv, ?_⟩
    simp only [Throttler.addCount, Function.update_self]
    omega
  lt hunspent := by
    -- The token was the only one.
    have htok : (pc t).token = some p := by simp [hpc, Pc.token]
    rcases hunspent with hb | ⟨u, hu⟩
    · simp [Throttler.addCount, tokens.apart p t htok] at hb
    · rw [Function.update_apply] at hu
      split at hu
      · simp [hc] at hu
      · next hut => exact absurd (tokens.one p u t (Pc.token_of_unspent hu) htok) hut

omit [DecidableEq Tid] in
/-- The step that grants a permission, below the target in force. -/
theorem Under.grant {pc' : Tid → Pc T} (h : Under vs th pc p) (hvs : vs ⊆ vs') (htarget : th.throttleTargets p ∈ vs')
    (hlt : th.scheduledCounts p < th.throttleTargets p) : Under vs' (th.grant p) pc' p where
  le := by
    obtain ⟨v, hv, hle⟩ := h.le
    exact ⟨v, hvs hv, by simpa using hle⟩
  lt _ := ⟨_, htarget, by simpa using hlt⟩

theorem Under.effect {xs : List (Sys Tid T × Label Tid T)} (h : ∀ p, Under (inForce xs s p) s.th s.pc p) (base : Base s)
    (he : Effect s l s') (p : Fin 2) : Under (inForce (xs ++ [(s, l)]) s' p) s'.th s'.pc p := by
  have hmono : inForce xs s p ⊆ inForce (xs ++ [(s, l)]) s' p := inForce_mono
  have hnow : s.th.throttleTargets p ∈ inForce (xs ++ [(s, l)]) s' p := by simp [inForce]
  cases he with
  | @block t p' pc opened =>
    refine (h p).mono hmono le_rfl fun hunspent => hunspent.of_update ?_ ?_
    · by_cases hp : p = p' <;> simp [Throttler.takeBlock, hp]
    · intro hc
      have hp : p' = p := by simpa [Pc.unspent] using hc
      exact Or.inl (hp ▸ opened)
  | @wrap t p' job pc hlt =>
    have hjob := base.wraps t p' job pc
    have hp' : (⟨job.priority, hlt⟩ : Fin 2) = p' := Fin.ext hjob
    by_cases hp : p = p'
    · subst hp
      have hspend := (h p).spend (c := .enter (.afterScheduling p (some s.nextSerial))) base.tokens hmono pc rfl
      rw [← hp'] at hspend
      exact hp' ▸ hspend
    · refine (h p).mono hmono ?_ fun hunspent => hunspent.of_spent id rfl
      simp [Throttler.addCount, hp', hp]
  | clear pc _ => exact (h p).mono hmono (by simp) fun hunspent => hunspent.of_spent (by simp) rfl
  | @grant t d high pc grants =>
    by_cases hp : p = 0
    · subst hp
      simp only [Throttler.grantsPrimary, Bool.and_eq_true, decide_eq_true_eq] at grants
      exact (h 0).grant hmono hnow grants.1
    · refine (h p).mono hmono (by simp) fun hunspent => hunspent.of_spent ?_ rfl
      simp [hp]
  | @low t d high attempted pc grants =>
    by_cases hp : p = 1
    · subst hp
      simp only [Throttler.grantsSecondary, Bool.and_eq_true, decide_eq_true_eq] at grants
      exact (h 1).grant hmono hnow grants.1.1
    · refine (h p).mono hmono (by simp) fun hunspent => hunspent.of_spent ?_ rfl
      simp [hp]
  | @complete t ret serial j pc found free =>
    refine (h p).mono hmono ?_ fun hunspent => hunspent.of_spent id rfl
    by_cases hp : p = j.prio
    · simp only [Throttler.addCount, hp, Function.update_self]
      omega
    · simp [Throttler.addCount, hp]
  | job pc _ =>
    refine (h p).mono hmono le_rfl fun hunspent => hunspent.of_update id fun hc => Or.inr ?_
    rw [pc]
    exact hc
  | again _ _ | setThrottle _ | queueOp _ _ | fail => exact (h p).mono hmono le_rfl id
  | call _ | null _ _ | enter _ _ | count _ | size _ | keep _ _ | hold _ _ | sendAway _ _ =>
    exact (h p).mono hmono le_rfl fun hunspent => hunspent.of_spent id rfl

theorem Effect.targets (he : Effect s l s') (hl : ∀ v, l ≠ .setThrottle p v) :
    s'.th.throttleTargets p = s.th.throttleTargets p := by
  cases he with
  | @setThrottle p' threshold a free =>
    have hp : p ≠ p' := fun hp => hl threshold (by rw [hp])
    simp [Throttler.setTarget, hp]
  | clear _ _ | grant _ _ | low _ _ => simp
  | call _ | block _ _ | again _ _ | null _ _ | job _ _ | wrap _ _ | enter _ _ | count _ | size _ | keep _ _ | hold _ _
  | sendAway _ _ | complete _ _ _ | queueOp _ _ | fail => rfl

variable [Fintype Tid] {targets : Fin 2 → Int} {xs : List (Sys Tid T × Label Tid T)}

theorem inForce_unchanged (run : (system Tid T targets).Run xs s) (hxs : ∀ x ∈ xs, ∀ v, x.2 ≠ .setThrottle p v) :
    ∀ v ∈ inForce xs s p, v = targets p := by
  induction run with
  | init => exact fun v hv => List.mem_singleton.mp hv
  | @step xs s s' l run hn ih =>
    have ih := ih fun x hx => hxs x (List.mem_append_left _ hx)
    have hsame := (next_effect hn).targets (hxs (s, l) (by simp))
    intro v hv
    simp only [inForce, List.map_append, List.map_cons, List.map_nil, List.append_assoc] at hv ih
    rcases List.mem_append.mp hv with hv | hv
    · exact ih v (List.mem_append_left _ hv)
    · rw [hsame] at hv
      exact ih v (List.mem_append_right _ (by simpa using hv))

/-- The throttle limit is never exceeded: a count is the number of live jobs of its priority, and at most
    the largest target that has been in force for it; with an unchanged target it is at most that target. -/
theorem count_le_target (run : (system Tid T targets).Run xs s) (hn : ∀ p, 0 ≤ targets p) (p : Fin 2) :
    s.th.scheduledCounts p = s.live.countP (·.prio == p) ∧ 0 ≤ s.th.scheduledCounts p ∧
      (∃ v ∈ inForce xs s p, s.th.scheduledCounts p ≤ v) ∧
      ((∀ x ∈ xs, ∀ v, x.2 ≠ .setThrottle p v) → s.th.scheduledCounts p ≤ s.th.throttleTargets p) := by
  have hunder : ∀ p, Under (inForce xs s p) s.th s.pc p := by
    induction run with
    | init =>
      refine fun p => ⟨⟨targets p, by simp [inForce, system, start, Throttler.new], hn p⟩, fun hunspent => ?_⟩
      refine ⟨targets p, by simp [inForce, system, start, Throttler.new], ?_⟩
      have hne : targets p ≠ 0 := by
        simpa [Unspent, system, start, Throttler.new, Pc.unspent] using hunspent
      exact lt_of_le_of_ne (hn p) hne.symm
    | step run hnext ih =>
      exact Under.effect ih (base_of_run run) (next_effect hnext)
  have hcounted := (base_of_run run).counted p
  refine ⟨hcounted, by rw [hcounted]; exact Int.natCast_nonneg _, (hunder p).le, fun hxs => ?_⟩
  obtain ⟨v, hv, hle⟩ := (hunder p).le
  have hall := inForce_unchanged run hxs
  have hnow : s.th.throttleTargets p = targets p := hall _ (by simp [inForce])
  rw [hnow, ← hall v hv]
  exact hle

/-- Two threads, targets 1 and 1: the first has a job, the second waits at the block. -/
theorem count_le_target_one : ∃ xs s, (system (Fin 2) Nat ![1, 1]).Run xs s ∧ s.th.scheduledCounts 0 = 1 ∧
    s.pc 1 = .block 0 ∧ s.th.scheduledCounts 0 = s.live.countP (·.prio == 0) ∧
    ∃ v ∈ inForce xs s 0, s.th.scheduledCounts 0 ≤ v := by
  obtain ⟨xs, s, run, -, hs⟩ := Lts.run_of_exec_any (system (Fin 2) Nat ![1, 1])
    (.queueOp (.enqueue ⟨7, 0, 0, 5⟩) :: .dequeue 1 0 :: .dequeue 0 0 :: List.replicate 8 (.step 0))
    (fun s => decide (s.th.scheduledCounts 0 = 1 ∧ s.pc 1 = .block 0)) (by decide)
  obtain ⟨hcount, hpc⟩ := of_decide_eq_true hs
  have hn : ∀ p : Fin 2, 0 ≤ (![1, 1] : Fin 2 → Int) p := by decide
  obtain ⟨hlive, -, hle, -⟩ := count_le_target run hn 0
  exact ⟨xs, s, run, hcount, hpc, hlive, hle⟩

end Dans.Throttle
