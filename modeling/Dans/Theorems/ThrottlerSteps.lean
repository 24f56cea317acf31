import Mathlib.Data.Fin.VecNotation
import Mathlib.Tactic.FinCases
import Dans.Lib.Exclusion
import Dans.Throttler
import Dans.Theorems.Linked

/-! What a step of a thread that uses the throttler can do, said once, and the invariants that do not
    depend on the targets: `_state_lock` has one holder, a job that comes out of the queue has the priority
    it was asked for, the counts are the numbers of live jobs, and a permission is one token. -/

namespace Dans

@[simp] theorem ThrottleJob.ofJob_serial {T : Type} {serial : Nat} {job : Job T} (h : job.priority < 2) :
    (ofJob serial job h).serial = serial := rfl

@[simp] theorem ThrottleJob.ofJob_job {T : Type} {serial : Nat} {job : Job T} (h : job.priority < 2) :
    (ofJob serial job h).job = job := rfl

@[simp] theorem ThrottleJob.ofJob_prio {T : Type} {serial : Nat} {job : Job T} (h : job.priority < 2) :
    (ofJob serial job h).prio = ⟨job.priority, h⟩ := rfl

end Dans

namespace Dans.Throttle

variable {Tid T : Type} [DecidableEq Tid] {s s' : Sys Tid T} {l : Label Tid T}

/-! ### The steps -/

/-- Everything a label can do. -/
inductive Effect (s : Sys Tid T) : Label Tid T → Sys Tid T → Prop where
  | call {t : Tid} {p : Fin 2} {ret : Option Nat} (pc : s.pc t = .outside ret) :
      Effect s (.dequeue t p) (s.goto t (.block p))
  | block {t : Tid} {p : Fin 2} (pc : s.pc t = .block p) (opened : s.th.throttleBlocks p = true) :
      Effect s (.step t) { s.goto t (.queue p) with th := s.th.takeBlock p }
  | again {t : Tid} {p : Fin 2} {q : MultiQueue T} (pc : s.pc t = .queue p) (turn : s.q.dequeueTurn p = .again q) :
      Effect s (.step t) { s with q := q }
  | null {t : Tid} {p : Fin 2} {q : MultiQueue T} (pc : s.pc t = .queue p) (turn : s.q.dequeueTurn p = .returns q none) :
      Effect s (.step t) { s.goto t (.enter (.afterScheduling p none)) with q := q }
  | job {t : Tid} {p : Fin 2} {q : MultiQueue T} {job : Job T} (pc : s.pc t = .queue p)
      (turn : s.q.dequeueTurn p = .returns q (some job)) : Effect s (.step t) { s.goto t (.wrap p job) with q := q }
  | wrap {t : Tid} {p : Fin 2} {job : Job T} (pc : s.pc t = .wrap p job) (h : job.priority < 2) :
      Effect s (.step t) { s.goto t (.enter (.afterScheduling p (some s.nextSerial))) with
        th := s.th.addCount ⟨job.priority, h⟩ 1
        live := s.live ++ [.ofJob s.nextSerial job h]
        nextSerial := s.nextSerial + 1 }
  | clear {t : Tid} {p : Fin 2} {ret : Option Nat} (pc : s.pc t = .enter (.afterScheduling p ret)) (free : s.StateFree) :
      Effect s (.step t) { s.goto t (.count (.afterScheduling p ret)) with th := s.th.setWaiting p false }
  | enter {t : Tid} {p : Fin 2} (pc : s.pc t = .enter (.completing p)) (free : s.StateFree) :
      Effect s (.step t) (s.goto t (.count (.completing p)))
  | count {t : Tid} {d : Decision} (pc : s.pc t = .count d) :
      Effect s (.step t) (s.goto t (.size d (s.th.scheduledCounts 0)))
  | size {t : Tid} {d : Decision} {count : Int} (pc : s.pc t = .size d count) :
      Effect s (.step t) (s.goto t (.primary d (count + s.q.size 0)))
  | grant {t : Tid} {d : Decision} {high : Int} (pc : s.pc t = .primary d high) (grants : s.th.grantsPrimary = true) :
      Effect s (.step t) { s.goto t (.secondary d high true) with th := s.th.grant 0 }
  | keep {t : Tid} {d : Decision} {high : Int} (pc : s.pc t = .primary d high) (grants : s.th.grantsPrimary = false) :
      Effect s (.step t) (s.goto t (.secondary d high false))
  | hold {t : Tid} {d : Decision} {high : Int} {attempted : Bool} (pc : s.pc t = .secondary d high attempted)
      (why : s.th.throttleTargets 0 ≤ high ∨ s.th.grantsSecondary attempted = false) :
      Effect s (.step t) (s.goto t (.outside d.ret))
  | sendAway {t : Tid} {d : Decision} {high : Int} {attempted : Bool} (pc : s.pc t = .secondary d high attempted)
      (waits : s.th.secondaryWaiting = true) :
      Effect s (.step t) { s.goto t (.outside d.ret) with q := s.q.releaseOneAt 1 }
  | low {t : Tid} {d : Decision} {high : Int} {attempted : Bool} (pc : s.pc t = .secondary d high attempted)
      (grants : s.th.grantsSecondary attempted = true) :
      Effect s (.step t) { s.goto t (.outside d.ret) with th := s.th.grant 1 }
  | complete {t : Tid} {ret : Option Nat} {serial : Nat} {j : ThrottleJob T} (pc : s.pc t = .outside ret)
      (found : s.live.find? (·.serial == serial) = some j) (free : s.NotInHand serial) :
      Effect s (.complete t serial) { s.goto t (.enter (.completing j.prio)) with
        th := s.th.addCount j.prio (-1), live := s.live.eraseP (·.serial == serial) }
  | setThrottle {p : Fin 2} {threshold : Int} {a : Option Abort} (free : s.StateFree) :
      Effect s (.setThrottle p threshold) { s with th := s.th.setTarget p threshold, abort := a }
  | queueOp {op : MultiQueue.Op T} {q : MultiQueue T} {ret : MultiQueue.Ret T} (other : ∀ p, op ≠ .dequeue p)
      (done : s.q.call op = .done q ret) : Effect s (.queueOp op) { s with q := q }
  | fail {l : Label Tid T} {a : Abort} : Effect s l (s.fail a)

variable [Fintype Tid]

theorem step_effect {t : Tid} (h : s.step t = some s') : Effect s (.step t) s' := by
  unfold Sys.step at h
  split at h
  case h_1 => cases h
  case h_2 p hc =>
    split at h <;> cases h
    exact .block hc ‹_›
  case h_3 p hc =>
    split at h <;> cases h
    · exact .again hc ‹_›
    · exact .null hc ‹_›
    · exact .job hc ‹_›
    · exact .fail
  case h_4 p job hc =>
    unfold Sys.makeJob at h
    split at h <;> cases h
    · exact .wrap hc ‹_›
    · exact .fail
  case h_5 d hc =>
    split at h <;> cases h
    cases d with
    | afterScheduling p ret => exact .clear hc ‹_›
    | completing p => exact .enter hc ‹_›
  case h_6 d hc =>
    cases h
    exact .count hc
  case h_7 d count hc =>
    cases h
    exact .size hc
  case h_8 d high hc =>
    split at h <;> cases h
    · exact .grant hc ‹_›
    · exact .keep hc (Bool.eq_false_of_not_eq_true ‹_›)
  case h_9 d high attempted hc =>
    cases h
    unfold Sys.adjustLow
    split
    · next hroom =>
      cases d with
      | afterScheduling p ret =>
        dsimp only
        split
        · exact .sendAway hc ‹_›
        · exact .hold hc (Or.inl hroom)
      | completing p => exact .hold hc (Or.inl hroom)
    · split
      · exact .low hc ‹_›
      · exact .hold hc (Or.inr (Bool.eq_false_of_not_eq_true ‹_›))

theorem next_effect (h : s.next l = some s') : Effect s l s' := by
  unfold Sys.next at h
  split at h
  · cases h
  · cases l with
    | dequeue t p =>
      simp only at h
      split at h <;> cases h
      exact .call ‹_›
    | step t => exact step_effect h
    | complete t serial =>
      simp only [Sys.complete] at h
      split at h
      · split at h <;> cases h
        exact .complete ‹_› ‹_› ‹_›
      · cases h
    | setThrottle p threshold =>
      simp only [Sys.setThrottle] at h
      split at h
      · cases h
        split
        · exact .setThrottle ‹_›
        · exact .setThrottle ‹_›
      · cases h
    | queueOp op =>
      simp only [Sys.queueOp] at h
      split at h <;> cases h
      · next hop hcall =>
        refine .queueOp ?_ hcall
        rintro p rfl
        exact hop p rfl
      · exact .fail

/-! ### Flags and blocks -/

section Flags
omit [DecidableEq Tid] [Fintype Tid]
variable (th : Throttler) (p p' : Fin 2) (b : Bool)

theorem waiting_setWaiting : (th.setWaiting p b).waiting p' = if p' = p then b else th.waiting p' := by
  unfold Throttler.setWaiting Throttler.waiting
  fin_cases p <;> fin_cases p' <;> simp

theorem waiting_grant : (th.grant p).waiting p' = if p' = p then true else th.waiting p' :=
  waiting_setWaiting th p p' true

@[simp] theorem setWaiting_targets : (th.setWaiting p b).throttleTargets = th.throttleTargets := by
  unfold Throttler.setWaiting
  split <;> rfl

@[simp] theorem setWaiting_blocks : (th.setWaiting p b).throttleBlocks = th.throttleBlocks := by
  unfold Throttler.setWaiting
  split <;> rfl

@[simp] theorem setWaiting_counts : (th.setWaiting p b).scheduledCounts = th.scheduledCounts := by
  unfold Throttler.setWaiting
  split <;> rfl

@[simp] theorem grant_targets : (th.grant p).throttleTargets = th.throttleTargets := setWaiting_targets th p true

@[simp] theorem grant_counts : (th.grant p).scheduledCounts = th.scheduledCounts := setWaiting_counts th p true

@[simp] theorem grant_blocks : (th.grant p).throttleBlocks = Function.update th.throttleBlocks p true := rfl

end Flags

/-! ### Jobs in hand, counts and the state lock -/

section Invariants
omit [Fintype Tid]
variable {th : Throttler} {pc : Tid → Pc T} {t : Tid} {c : Pc T} {p : Fin 2} {live : List (ThrottleJob T)}

/-- A thread that makes a job of priority `p` has taken it from the list of that priority. -/
def Wraps (pc : Tid → Pc T) : Prop := ∀ t p job, pc t = .wrap p job → job.priority = p

theorem Wraps.update (h : Wraps pc) (hc : ∀ p job, c = .wrap p job → job.priority = p) : Wraps (Function.update pc t c) := by
  intro u p job hu
  rw [Function.update_apply] at hu
  split at hu
  · exact hc p job hu
  · exact h u p job hu

theorem Wraps.effect (h : Wraps s.pc) (he : Effect s l s') : Wraps s'.pc := by
  cases he with
  | job pc turn =>
    refine h.update ?_
    rintro _ _ ⟨⟩
    exact MultiQueue.dequeueTurn_priority turn
  | again _ _ | setThrottle _ | queueOp _ _ | fail => exact h
  | call _ | block _ _ | null _ _ | wrap _ _ | clear _ _ | enter _ _ | count _ | size _ | grant _ _ | keep _ _
  | hold _ _ | sendAway _ _ | low _ _ | complete _ _ _ => exact h.update nofun

/-- A count is the number of live jobs of its priority. -/
def Counted (th : Throttler) (live : List (ThrottleJob T)) : Prop :=
  ∀ p, th.scheduledCounts p = live.countP (·.prio == p)

theorem countP_eraseP {serial : Nat} {j : ThrottleJob T} (found : live.find? (·.serial == serial) = some j) (p : Fin 2) :
    live.countP (·.prio == p) = (live.eraseP (·.serial == serial)).countP (·.prio == p) + if j.prio = p then 1 else 0 := by
  obtain ⟨hj, before, after, rfl, hbefore⟩ := List.find?_eq_some_iff_append.mp found
  have hskip : ∀ x ∈ before, ¬(x.serial == serial) = true := fun x hx => by simpa using hbefore x hx
  have herase : (j :: after).eraseP (·.serial == serial) = after := List.eraseP_cons_of_pos hj
  rw [List.eraseP_append_right _ hskip, herase]
  simp only [List.countP_append, List.countP_cons, beq_iff_eq]
  omega

theorem Counted.effect (h : Counted s.th s.live) (he : Effect s l s') : Counted s'.th s'.live := by
  cases he with
  | wrap pc hp =>
    intro p
    simp only [Throttler.addCount, Function.update_apply, List.countP_append, List.countP_singleton, beq_iff_eq]
    by_cases heq : p = ⟨_, hp⟩
    · subst heq
      simpa using h _
    · simp [h p, heq, Ne.symm heq]
  | @complete t ret serial j pc found free =>
    intro p
    have herase := countP_eraseP found p
    simp only [Throttler.addCount, Function.update_apply]
    by_cases heq : p = j.prio
    · subst heq
      have hcount := h j.prio
      simp only [↓reduceIte] at herase ⊢
      omega
    · have hcount := h p
      simp only [heq, Ne.symm heq, ↓reduceIte, Nat.add_zero] at herase ⊢
      omega
  | clear pc _ =>
    intro p
    rw [setWaiting_counts]
    exact h p
  | grant pc _ | low pc _ =>
    intro p
    rw [grant_counts]
    exact h p
  | call _ | block _ _ | again _ _ | null _ _ | job _ _ | enter _ _ | count _ | size _ | keep _ _ | hold _ _
  | sendAway _ _ | setThrottle _ | queueOp _ _ | fail => exact h

theorem locked_effect (h : Exclusion.One (fun c : Pc T => c.locked = true) s.pc) (he : Effect s l s') :
    Exclusion.One (fun c : Pc T => c.locked = true) s'.pc := by
  have free : s.StateFree → ∀ u, ¬(s.pc u).locked = true := fun hfree u => by simp [hfree u]
  cases he with
  | again _ _ | setThrottle _ | queueOp _ _ | fail => exact h
  | clear _ hfree | enter _ hfree => exact h.update fun _ => Or.inr (free hfree)
  | count pc | size pc | grant pc _ | keep pc _ => exact h.update fun _ => Or.inl (by rw [pc]; rfl)
  | call _ | block _ _ | null _ _ | job _ _ | wrap _ _ | hold _ _ | sendAway _ _ | low _ _ | complete _ _ _ =>
    exact h.update nofun

/-! ### Permissions -/

/-- The priority whose permission the thread has taken and not yet given back: it is between
    `_throttle_blocks[p].lock()` and the clearing of the waiting flag. -/
def Pc.token : Pc T → Option (Fin 2)
  | queue p | wrap p _ | enter (.afterScheduling p _) => some p
  | _ => none

/-- A permission is one token: it lies in the open block or is held by one thread, and the waiting flag
    says whether there is one. -/
structure Tokens (th : Throttler) (pc : Tid → Pc T) : Prop where
  one : ∀ p, Exclusion.One (fun c : Pc T => c.token = some p) pc
  apart : ∀ p t, (pc t).token = some p → th.throttleBlocks p = false
  waiting : ∀ p, th.waiting p = true ↔ th.throttleBlocks p = true ∨ ∃ t, (pc t).token = some p

namespace Tokens

theorem same (h : Tokens th pc) (hc : c.token = (pc t).token) : Tokens th (Function.update pc t c) where
  one p := (h.one p).update fun htok => Or.inl (hc ▸ htok)
  apart p u hu := by
    rw [Function.update_apply] at hu
    split at hu
    · exact h.apart p t (hc ▸ hu)
    · exact h.apart p u hu
  waiting p := by
    rw [h.waiting p, (h.one p).exists_update, hc]
    by_cases htok : (pc t).token = some p
    · simp [htok, (⟨t, htok⟩ : ∃ u, (pc u).token = some p)]
    · simp [htok]

omit [DecidableEq Tid] in
theorem not_waiting (h : Tokens th pc) (hw : th.waiting p = false) :
    th.throttleBlocks p = false ∧ ∀ t, (pc t).token ≠ some p := by
  have hnot := mt (h.waiting p).mpr (by simp [hw])
  push Not at hnot
  exact ⟨Bool.eq_false_of_not_eq_true hnot.1, hnot.2⟩

theorem block (h : Tokens th pc) (hpc : pc t = .block p) (opened : th.throttleBlocks p = true) :
    Tokens (th.takeBlock p) (Function.update pc t (.queue p)) where
  one p' := (h.one p').update fun hc => Or.inr fun u hu => by
    have hp : p = p' := by simpa [Pc.token] using hc
    subst hp
    simp [h.apart p u hu] at opened
  apart p' u hu := by
    by_cases hp : p' = p
    · simp [Throttler.takeBlock, hp]
    · rw [Function.update_apply] at hu
      split at hu
      · exact absurd (by simpa [Pc.token] using hu) (Ne.symm hp)
      · simpa [Throttler.takeBlock, hp] using h.apart p' u hu
  waiting p' := by
    show th.waiting p' = true ↔ _
    rw [h.waiting p', (h.one p').exists_update, hpc]
    by_cases hp : p' = p
    · subst hp
      simp [Throttler.takeBlock, Pc.token, opened]
    · simp [Throttler.takeBlock, Pc.token, hp, Ne.symm hp]

theorem clear (h : Tokens th pc) {ret : Option Nat} (hpc : pc t = .enter (.afterScheduling p ret)) :
    Tokens (th.setWaiting p false) (Function.update pc t (.count (.afterScheduling p ret))) where
  one p' := (h.one p').update nofun
  apart p' u hu := by
    rw [setWaiting_blocks]
    rw [Function.update_apply] at hu
    split at hu
    · cases hu
    · exact h.apart p' u hu
  waiting p' := by
    rw [waiting_setWaiting, setWaiting_blocks, (h.one p').exists_update, hpc]
    by_cases hp : p' = p
    · subst hp
      simp [Pc.token, h.apart p' t (by simp [hpc, Pc.token])]
    · simp [Pc.token, hp, Ne.symm hp, h.waiting p']

omit [DecidableEq Tid] in
theorem grant (h : Tokens th pc) (hw : th.waiting p = false) : Tokens (th.grant p) pc where
  one := h.one
  apart p' u hu := by
    have hp : p' ≠ p := fun hp => (h.not_waiting hw).2 u (hp ▸ hu)
    simpa [hp] using h.apart p' u hu
  waiting p' := by
    rw [waiting_grant]
    by_cases hp : p' = p
    · simp [hp]
    · simp [hp, h.waiting p']

theorem effect (h : Tokens s.th s.pc) (he : Effect s l s') : Tokens s'.th s'.pc := by
  cases he with
  | block pc opened => exact h.block pc opened
  | clear pc _ => exact h.clear pc
  | grant pc grants =>
    refine (h.same (c := .secondary _ _ true) (by simp [pc, Pc.token])).grant ?_
    simpa [Throttler.grantsPrimary, Throttler.waiting] using (Bool.and_eq_true_iff.mp grants).2
  | low pc grants =>
    refine (h.same (c := .outside _) (by simp [pc, Pc.token])).grant ?_
    simp only [Throttler.grantsSecondary, Bool.and_eq_true, Bool.not_eq_true'] at grants
    exact grants.1.2
  | again _ _ | queueOp _ _ | fail => exact h
  | setThrottle _ => exact ⟨h.one, h.apart, h.waiting⟩
  | wrap pc _ =>
    have hsame := h.same (c := .enter (.afterScheduling _ (some s.nextSerial))) (by rw [pc]; rfl)
    exact ⟨hsame.one, hsame.apart, hsame.waiting⟩
  | @complete t ret serial j pc _ _ =>
    have hsame := h.same (c := .enter (.completing j.prio)) (by rw [pc]; rfl)
    exact ⟨hsame.one, hsame.apart, hsame.waiting⟩
  | call pc | null pc _ | job pc _ | enter pc _ | count pc | size pc | keep pc _ | hold pc _ | sendAway pc _ =>
    exact h.same (by rw [pc]; rfl)

end Tokens

end Invariants

/-- What holds in every state whatever the targets are. -/
structure Base (s : Sys Tid T) : Prop where
  wraps : Wraps s.pc
  counted : Counted s.th s.live
  locked : Exclusion.One (fun c : Pc T => c.locked = true) s.pc
  tokens : Tokens s.th s.pc

omit [Fintype Tid] in
theorem Base.effect (h : Base s) (he : Effect s l s') : Base s' :=
  ⟨h.wraps.effect he, h.counted.effect he, locked_effect h.locked he, h.tokens.effect he⟩

variable {targets : Fin 2 → Int} {xs : List (Sys Tid T × Label Tid T)}

omit [DecidableEq Tid] [Fintype Tid] in
theorem Base.start : Base (start Tid T targets) where
  wraps := nofun
  counted _ := rfl
  locked := nofun
  tokens := by
    refine ⟨nofun, nofun, fun p => ?_⟩
    fin_cases p <;> simp [Throttle.start, Throttler.new, Throttler.waiting, Pc.token]

theorem base_of_run (run : (system Tid T targets).Run xs s) : Base s := by
  induction run with
  | init => exact .start
  | step _ hn ih => exact ih.effect (next_effect hn)

/-! ### A permission is a single token -/

/-- The step calls `_throttle_blocks[p].unlock()`. -/
inductive Unlocks (s : Sys Tid T) : Label Tid T → Fin 2 → Prop where
  | primary {t : Tid} {d : Decision} {high : Int} (pc : s.pc t = .primary d high) (grants : s.th.grantsPrimary = true) :
      Unlocks s (.step t) kPrimaryPriority
  | secondary {t : Tid} {d : Decision} {high : Int} {attempted : Bool} (pc : s.pc t = .secondary d high attempted)
      (room : high < s.th.throttleTargets kPrimaryPriority) (grants : s.th.grantsSecondary attempted = true) :
      Unlocks s (.step t) kSecondaryPriority

omit [DecidableEq Tid] [Fintype Tid] in
theorem Unlocks.not_waiting {p : Fin 2} (h : Unlocks s l p) : s.th.waiting p = false := by
  cases h with
  | primary _ grants => simpa [Throttler.grantsPrimary, Throttler.waiting] using (Bool.and_eq_true_iff.mp grants).2
  | secondary _ _ grants =>
    simp only [Throttler.grantsSecondary, Bool.and_eq_true, Bool.not_eq_true'] at grants
    exact grants.1.2

/-- In every state, the waiting flag of a priority is set exactly when its block is unlocked or exactly one thread is
    between taking the block and clearing the flag, and never both; so at most one thread is in the `Dequeue` of the
    queue, and a block is unlocked only while it is locked. -/
theorem permission_single (run : (system Tid T targets).Run xs s) (p : Fin 2) :
    (s.th.waiting p = true ↔ s.th.throttleBlocks p = true ∨ ∃! t, (s.pc t).token = some p) ∧
    ¬(s.th.throttleBlocks p = true ∧ ∃ t, (s.pc t).token = some p) ∧
    (∀ t u, (s.pc t).token = some p → (s.pc u).token = some p → t = u) ∧
    (∀ t u, s.pc t = .queue p → s.pc u = .queue p → t = u) ∧
    ∀ l, Unlocks s l p → s.th.throttleBlocks p = false := by
  have tokens := (base_of_run run).tokens
  have one : ∀ t u, (s.pc t).token = some p → (s.pc u).token = some p → t = u := tokens.one p
  refine ⟨?_, ?_, one, fun t u ht hu => one t u (by rw [ht]; rfl) (by rw [hu]; rfl), fun l hl => ?_⟩
  · rw [tokens.waiting p]
    refine or_congr_right ⟨fun ⟨t, ht⟩ => ⟨t, ht, fun u hu => one u t hu ht⟩, fun ⟨t, ht, _⟩ => ⟨t, ht⟩⟩
  · rintro ⟨hopen, t, ht⟩
    rw [tokens.apart p t ht] at hopen
    cases hopen
  · exact (tokens.not_waiting hl.not_waiting).1

/-- Two threads, targets 1 and 1: the first is in the `Dequeue` of the queue and the second waits at the block. -/
theorem permission_single_held : ∃ xs s, (system (Fin 2) Nat ![1, 1]).Run xs s ∧ s.pc 0 = .queue 0 ∧ s.pc 1 = .block 0 ∧
    (s.th.waiting 0 = true ↔ s.th.throttleBlocks 0 = true ∨ ∃! t, (s.pc t).token = some 0) := by
  obtain ⟨xs, s, run, -, hs⟩ := Lts.run_of_exec_any (system (Fin 2) Nat ![1, 1])
    [.dequeue 0 0, .dequeue 1 0, .step 0] (fun s => decide (s.pc 0 = .queue 0 ∧ s.pc 1 = .block 0)) (by decide)
  obtain ⟨hpc₀, hpc₁⟩ := of_decide_eq_true hs
  exact ⟨xs, s, run, hpc₀, hpc₁, (permission_single run 0).1⟩

end Dans.Throttle
