import Dans.Lib.Ghost
import Dans.Theorems.Delivery

/-! What the other duplicates of a request still do once its `PurgeState` is set. Every test of the `PurgeState` from
    then on drops the duplicate, so it can only finish the action that it was about to begin or had begun. -/

namespace Dans.Client
open Tally

variable {Tid D : Type} {cfg : Config}

/-! ### Actions -/

/-- What a duplicate costs: `Connect`, the `send` of a request and its `Monitor`, the `read`s of a response and their
    `Monitor`, and a `Dispatch` into a queue. -/
inductive Action where
  | connect
  | send
  | monitorRequest
  | read
  | monitorResponse
  | dispatch
  deriving DecidableEq

/-- The calls that make up one action. -/
inductive Action.Whole : List Action → Prop where
  | connect : Whole [.connect]
  | request : Whole [.send, .monitorRequest]
  | response (n : Nat) : Whole (List.replicate n .read ++ [.monitorResponse])
  | dispatch : Whole [.dispatch]

/-- A part of one action. -/
def Action.One (as : List Action) : Prop := ∃ whole, Whole whole ∧ as <:+: whole

/-- The action that the next step of a thread at this point performs, and for which duplicate. -/
def Pc.action : Pc D → Option (Duplicate × Action)
  | dispatching d => if d.prio ≤ d.maxPrio then some ((d.purgeState, d.prio), .dispatch) else none
  | acting (.connect job) => some ((StageJob.connect job).key, .connect)
  | acting (.request job) => some ((StageJob.request job).key, .send)
  | acting (.response job) => if job.jobData.object.isSome then none else some ((StageJob.response job).key, .read)
  | sent job => some ((StageJob.request job).key, .monitorRequest)
  | reading job => some ((StageJob.response job).key, .read)
  | monitoring job => some ((StageJob.response job).key, .monitorResponse)
  | passing j => some (j.key, .dispatch)
  | outside | taken _ | finished _ _ | completed _ | delivering _ | sweeping _ _ | called _ _ => none

def Label.thread : Label Tid D → Tid
  | dispatch t _ _ | take t _ _ | fire t _ _ _ | step t | send t _ | readHeader t _ | read t _ => t

/-- What a step does for a duplicate. -/
def Pc.actionOf (c : Pc D) (k : Duplicate) : List Action :=
  match c.action with
  | some (k', a) => if k' = k then [a] else []
  | none => []

/-- The actions for a duplicate in the steps of a run. -/
def actions (k : Duplicate) (xs : List (Sys Tid D × Label Tid D)) : List Action :=
  xs.flatMap fun x => (x.1.pc x.2.thread).actionOf k

/-! ### What is still ahead -/

/-- What remains, at most, of the action that a thread at this point is in, if it passes no further test. -/
inductive Pc.Ahead : Pc D → List Action → Prop where
  | duplicate {d : Dispatching D} : Ahead (.dispatching d) [.dispatch]
  | connect {job : Job (ConnectDataInternal D)} : Ahead (.acting (.connect job)) [.connect]
  | request {job : Job (RequestData D)} : Ahead (.acting (.request job)) [.send, .monitorRequest]
  | sent {job : Job (RequestData D)} : Ahead (.sent job) [.monitorRequest]
  | response {job : Job (ResponseData D)} (n : Nat) :
      Ahead (.acting (.response job)) (List.replicate n .read ++ [.monitorResponse])
  | reading {job : Job (ResponseData D)} (n : Nat) : Ahead (.reading job) (List.replicate n .read ++ [.monitorResponse])
  | finished {job : Job (ResponseData D)} {closed : Bool} : Ahead (.finished job closed) [.monitorResponse]
  | monitoring {job : Job (ResponseData D)} : Ahead (.monitoring job) [.monitorResponse]
  | passing {j : StageJob D} : Ahead (.passing j) [.dispatch]

/-- The actions for the duplicate that may still come; none in a stopped process. -/
def Sys.Allows (s : Sys Tid D) (k : Duplicate) (as : List Action) : Prop :=
  as = [] ∨ s.abort = none ∧ ∃ t w, 0 < (s.pc t).holds k ∧ (s.pc t).Ahead w ∧ as <+: w

theorem Pc.Ahead.one {c : Pc D} {w as : List Action} (h : c.Ahead w) (has : as <+: w) : Action.One as := by
  cases h with
  | duplicate | passing => exact ⟨_, .dispatch, has.isInfix⟩
  | connect => exact ⟨_, .connect, has.isInfix⟩
  | request => exact ⟨_, .request, has.isInfix⟩
  | sent => exact ⟨_, .request, has.isInfix.trans (List.suffix_cons _ _).isInfix⟩
  | response n | reading n => exact ⟨_, .response n, has.isInfix⟩
  | finished | monitoring => exact ⟨_, .response 0, has.isInfix⟩

theorem Sys.Allows.one {s : Sys Tid D} {k : Duplicate} {as : List Action} (h : s.Allows k as) : Action.One as := by
  rcases h with rfl | ⟨-, t, w, -, hahead, has⟩
  · exact ⟨_, .connect, List.nil_infix⟩
  · exact hahead.one has

/-- Where a thread acts it holds the duplicate, and the action is one that is still ahead. -/
theorem Pc.actionOf_ahead {c : Pc D} {k : Duplicate} (h : c.actionOf k ≠ []) :
    0 < c.holds k ∧ ∃ w, c.Ahead w ∧ c.actionOf k <+: w := by
  obtain ⟨a, ha⟩ : ∃ a, c.action = some (k, a) := by
    unfold Pc.actionOf at h
    split at h
    · next k' a ha =>
      split at h
      · next hk => exact ⟨a, hk ▸ ha⟩
      · exact absurd rfl h
    · exact absurd rfl h
  have hof : c.actionOf k = [a] := by simp [Pc.actionOf, ha]
  have hholds : ∀ {j : StageJob D}, c.job = some j → j.key = k → 0 < c.holds k := fun hj hk => by
    simp [holds_of_job hj, hk]
  rw [hof]
  cases c with
  | dispatching d =>
    simp only [Pc.action] at ha
    split at ha <;> cases ha
    next hle => exact ⟨by simp [Pc.holds, hle], _, .duplicate, List.prefix_rfl⟩
  | acting j =>
    cases j with
    | connect job =>
      cases ha
      exact ⟨hholds rfl rfl, _, .connect, List.prefix_rfl⟩
    | request job =>
      cases ha
      exact ⟨hholds rfl rfl, _, .request, List.prefix_append [_] [_]⟩
    | response job =>
      simp only [Pc.action] at ha
      split at ha <;> cases ha
      exact ⟨hholds rfl rfl, _, .response 1, List.prefix_append [_] [_]⟩
  | sent job =>
    cases ha
    exact ⟨hholds rfl rfl, _, .sent, List.prefix_rfl⟩
  | reading job =>
    cases ha
    exact ⟨hholds rfl rfl, _, .reading 1, List.prefix_append [_] [_]⟩
  | monitoring job =>
    cases ha
    exact ⟨hholds rfl rfl, _, .monitoring, List.prefix_rfl⟩
  | passing j =>
    cases ha
    exact ⟨hholds rfl rfl, _, .passing, List.prefix_rfl⟩
  | outside | taken _ | finished _ _ | completed _ | delivering _ | sweeping _ _ | called _ _ => cases ha

/-! ### One step of a thread -/

/-- Where a step can take a thread. -/
inductive Turn (requests : Nat) (purged : Nat → Bool) : Pc D → Pc D → Prop where
  | dispatch {d : Dispatching D} (fresh : d.purgeState = requests) : Turn requests purged .outside (.dispatching d)
  | duplicate {d : Dispatching D} (le : d.prio ≤ d.maxPrio) :
      Turn requests purged (.dispatching d) (.dispatching { d with i := d.i + 1, prio := d.prio + 1 })
  | take {j : StageJob D} : Turn requests purged .outside (.taken j)
  | fire {j : StageJob D} {soc : Int} : Turn requests purged .outside (.called j soc)
  | work {c c' : Pc D} (works : Works purged c c') : Turn requests purged c c'
  | win {job : Job (ResponseData D)} (fresh : purged job.jobData.purgeState = false) :
      Turn requests purged (.completed job) (.delivering job)
  | sweep {c : Pc D} {stage : Stage} {jobId : JobId} : Turn requests purged c (.sweeping stage jobId)
  | leave {c : Pc D} : Turn requests purged c .outside

variable {requests : Nat} {purged : Nat → Bool} {c c' : Pc D} {k : Duplicate} {w as : List Action}

/-- Once the `PurgeState` is set, a thread that goes on with a job finishes what it has begun. -/
theorem Works.ahead (h : Works purged c c') (hset : purged k.1 = true) (hholds : 0 < c'.holds k) (hahead : c'.Ahead w)
    (has : as <+: w) : 0 < c.holds k ∧ ∃ w', c.Ahead w' ∧ c.actionOf k ++ as <+: w' := by
  obtain ⟨j, j', hj, hj', hkey, -⟩ := h.job
  have hk : j.key = k := by
    rw [holds_of_job hj', hkey] at hholds
    by_contra hne
    simp [hne] at hholds
  have hbefore : 0 < c.holds k := by simp [holds_of_job hj, hk]
  refine ⟨hbefore, ?_⟩
  cases h with
  | act fresh | pass fresh =>
    cases hj
    rw [← hk] at hset
    exact absurd (fresh.symm.trans hset) Bool.false_ne_true
  | @send job =>
    cases hj
    cases hahead
    have hof : Pc.actionOf (.acting (.request job)) k = [.send] := by simp [Pc.actionOf, Pc.action, hk]
    rw [hof]
    exact ⟨_, .request, List.cons_prefix_cons.mpr ⟨rfl, has⟩⟩
  | @header job data same object =>
    cases hj
    cases hahead with
    | reading n =>
      cases hobject : job.jobData.object.isSome with
      | true =>
        have hof : Pc.actionOf (.acting (.response job)) k = [] := by simp [Pc.actionOf, Pc.action, hobject]
        rw [hof]
        exact ⟨_, .response n, has⟩
      | false =>
        have hof : Pc.actionOf (.acting (.response job)) k = [.read] := by simp [Pc.actionOf, Pc.action, hobject, hk]
        rw [hof]
        exact ⟨_, .response (n + 1), List.cons_prefix_cons.mpr ⟨rfl, has⟩⟩
  | @read job bytes =>
    cases hj
    cases hahead with
    | reading n =>
      have hof : Pc.actionOf (.reading job) k = [.read] := by simp [Pc.actionOf, Pc.action, hk]
      rw [hof]
      exact ⟨_, .reading (n + 1), List.cons_prefix_cons.mpr ⟨rfl, has⟩⟩
  | @stop job closed =>
    cases hj
    cases hahead
    have hof : Pc.actionOf (.reading job) k = [.read] := by simp [Pc.actionOf, Pc.action, hk]
    rw [hof]
    exact ⟨_, .reading 1, List.cons_prefix_cons.mpr ⟨rfl, has⟩⟩
  | complete _ => cases hahead
  | monitor =>
    cases hahead
    exact ⟨_, .finished, has⟩

theorem Turn.ahead (h : Turn requests purged c c') (hset : purged k.1 = true) (hlt : k.1 < requests)
    (hholds : 0 < c'.holds k) (hahead : c'.Ahead w) (has : as <+: w) :
    0 < c.holds k ∧ ∃ w', c.Ahead w' ∧ c.actionOf k ++ as <+: w' := by
  cases h with
  | dispatch fresh =>
    simp only [Pc.holds] at hholds
    split at hholds
    · next hk =>
      rw [fresh] at hk
      exact absurd hk.1 (Nat.ne_of_gt hlt)
    · cases hholds
  | @duplicate d le =>
    cases hahead
    simp only [Pc.holds] at hholds
    split at hholds
    · next hk =>
      obtain ⟨hr, hlow, hhigh⟩ := hk
      have hlow : d.prio + 1 ≤ k.2 := hlow
      have hother : (d.purgeState, d.prio) ≠ k := fun heq => by
        rw [← heq] at hlow
        exact Nat.not_succ_le_self _ hlow
      have hof : Pc.actionOf (.dispatching d) k = [] := by simp [Pc.actionOf, Pc.action, le, hother]
      rw [hof]
      exact ⟨by simp [Pc.holds, show d.purgeState = k.1 from hr, Nat.le_of_succ_le hlow, show k.2 ≤ d.maxPrio from hhigh],
        _, .duplicate, has⟩
    · cases hholds
  | work works => exact works.ahead hset hholds hahead has
  | take | fire | win _ | sweep | leave => cases hahead

theorem pc_of_enqueue {r s' : Sys Tid D} {j : StageJob D} (h : r.enqueue j = .ok s') : s'.pc = r.pc := by
  cases j <;> obtain ⟨x, -, rfl⟩ := ok_of_map h <;> rfl

theorem pc_of_duplicate {r s' : Sys Tid D} {j : StageJob D} {i : Nat} (h : (r.enqueue j).map (·.increment i) = .ok s') :
    s'.pc = r.pc := by
  obtain ⟨q, hq, rfl⟩ := ok_of_map h
  have hpc : (q.increment i).pc = q.pc := congrArg Chain.pc (chain_increment q i)
  exact hpc.trans (pc_of_enqueue hq)

theorem pc_of_purge {r s' : Sys Tid D} {stage : Stage} {id : JobId} (h : r.purge id stage = .ok s') : s'.pc = r.pc := by
  cases stage <;> obtain ⟨x, -, rfl⟩ := ok_of_map h <;> rfl

theorem pc_of_dequeue {r s' : Sys Tid D} {stage : Stage} {p : Priority} {ret : Option (StageJob D)}
    (h : r.dequeue p stage = .ok (s', ret)) : s'.pc = r.pc := by
  cases stage <;> obtain ⟨x, -, hx⟩ := ok_of_map h <;> cases hx <;> rfl

variable [DecidableEq Tid] {s s' : Sys Tid D} {l : Label Tid D} {t : Tid}

/-- The process stops, the thread stays outside, or it takes a turn; no other thread moves. -/
def Turns (s s' : Sys Tid D) (t : Tid) : Prop :=
  s'.abort.isSome = true ∨ (s.pc t = .outside ∧ s'.pc = s.pc) ∨
    ∃ c, s'.pc = Function.update s.pc t c ∧ Turn s.requests.length s.purged (s.pc t) c

theorem turns_goto {c : Pc D} (h : Turn s.requests.length s.purged (s.pc t) c) : Turns s (s.goto t c) t :=
  Or.inr (Or.inr ⟨c, rfl, h⟩)

theorem turns_work {c : Pc D} (h : Works s.purged (s.pc t) c) : Turns s (s.goto t c) t := turns_goto (.work h)

theorem turns_orFail {c : Pc D} {r : Except Fault (Sys Tid D)} (h : Turn s.requests.length s.purged (s.pc t) c)
    (hpc : ∀ s', r = .ok s' → s'.pc = Function.update s.pc t c) : Turns s (s.orFail r) t := by
  cases r with
  | error f => exact Or.inl rfl
  | ok s' => exact Or.inr (Or.inr ⟨c, hpc s' rfl, h⟩)

theorem turns_step (h : s.step cfg t = some s') : Turns s s' t := by
  unfold Sys.step at h
  split at h
  · next d hpc =>
    cases h
    unfold Sys.duplicate
    split
    · next hle =>
      split
      · exact Or.inl rfl
      · exact turns_orFail (hpc ▸ .duplicate hle) fun _ he => pc_of_duplicate he
    · exact turns_goto .leave
  · next j hpc =>
    cases h
    split
    · exact turns_goto .leave
    · next hset => exact turns_work (hpc ▸ .act (Bool.eq_false_of_not_eq_true hset))
  · cases h
    exact Or.inr (Or.inr ⟨_, rfl, .leave⟩)
  · next job hpc =>
    split at h
    · next hobject =>
      cases h
      exact turns_work (hpc ▸ .header job.jobData rfl hobject)
    · cases h
  · cases h
    exact Or.inr (Or.inr ⟨_, rfl, .leave⟩)
  · next job closed hpc =>
    split at h
    · next hcomplete =>
      cases h
      exact turns_work (hpc ▸ .complete hcomplete)
    · cases h
      cases closed
      · exact turns_work (hpc ▸ .monitor)
      · exact turns_goto .leave
  · next job hpc =>
    split at h
    · cases h
      exact turns_goto .leave
    · next hset =>
      cases h
      exact Or.inr (Or.inr ⟨_, rfl, hpc ▸ .win (Bool.eq_false_of_not_eq_true hset)⟩)
  · cases h
    split <;> exact Or.inr (Or.inr ⟨_, rfl, .sweep⟩)
  · next stage id hpc =>
    cases h
    cases stage with
    | connect | request => exact turns_orFail .sweep fun _ hp => pc_of_purge hp
    | response => exact turns_orFail .leave fun _ hp => pc_of_purge hp
  · cases h
    exact Or.inr (Or.inr ⟨_, rfl, .leave⟩)
  · next j soc hpc =>
    cases h
    unfold Sys.passOn
    split
    · next hok => exact turns_work (hpc ▸ .pass hok.1)
    · exact turns_goto .leave
  · cases h
    unfold Sys.pass
    split
    · exact Or.inl rfl
    · exact turns_orFail .leave fun _ he => pc_of_enqueue he
  all_goals cases h

theorem next_turns (h : s.next cfg l = some s') : Turns s s' l.thread := by
  unfold Sys.next at h
  split at h
  · cases h
  · cases l with
    | step t => exact turns_step h
    | dispatch t job r =>
      dsimp only at h
      split at h
      · next hpc =>
        cases h
        unfold Sys.dispatch
        dsimp only
        split
        · exact Or.inl rfl
        · split
          · exact Or.inl rfl
          · refine Or.inr (Or.inr ⟨_, rfl, ?_⟩)
            rw [show s.pc (Label.dispatch t job r).thread = .outside from hpc]
            exact .dispatch rfl
      · cases h
    | take t stage p =>
      simp only [Sys.take] at h
      split at h
      · next hpc =>
        split at h
        · cases h
          exact Or.inl rfl
        · next hd =>
          cases h
          exact Or.inr (Or.inl ⟨hpc, pc_of_dequeue hd⟩)
        · next s₁ j hd =>
          cases h
          refine Or.inr (Or.inr ⟨.taken j, by simp [Sys.goto, pc_of_dequeue hd, Label.thread], ?_⟩)
          rw [show s.pc (Label.take t stage p).thread = .outside from hpc]
          exact .take
      · cases h
    | fire t i soc ready =>
      simp only [Sys.fire] at h
      split at h
      · next j hpc hj =>
        split at h
        · cases h
          exact Or.inr (Or.inl ⟨hpc, rfl⟩)
        · split at h
          · cases h
            refine Or.inr (Or.inr ⟨_, rfl, ?_⟩)
            rw [show s.pc (Label.fire t i soc ready).thread = .outside from hpc]
            exact .fire
          · cases h
            exact Or.inl rfl
      · cases h
    | send t complete =>
      simp only [Sys.send] at h
      split at h
      · next job hpc =>
        cases h
        cases complete with
        | true => exact turns_work (t := t) (hpc ▸ .send)
        | false => exact Or.inl rfl
      · cases h
    | readHeader t header =>
      simp only [Sys.readHeader] at h
      split at h
      · next job hpc =>
        split at h
        · cases h
        · cases header with
          | none =>
            cases h
            exact Or.inl rfl
          | some header =>
            dsimp only at h
            split at h
            · cases h
              exact Or.inl rfl
            · split at h
              · cases h
                exact Or.inl rfl
              · cases h
                exact turns_work (t := t) (hpc ▸ .header (job.jobData.begin header) rfl rfl)
      · cases h
    | read t result =>
      simp only [Sys.read] at h
      split at h
      · next job hpc =>
        split at h
        · cases h
          exact Or.inl rfl
        · cases result with
          | bytes data =>
            dsimp only at h
            split at h <;> cases h
            exact turns_work (t := t) (hpc ▸ .read data)
          | wouldBlock =>
            cases h
            exact turns_work (t := t) (hpc ▸ .stop false)
          | error | closed =>
            cases h
            exact turns_work (t := t) (hpc ▸ .stop true)
      · cases h

/-! ### Whole runs -/

variable [Fintype Tid]

/-- No two threads hold a duplicate. -/
theorem Unique.holder_eq (h : Unique cfg s.chain) {t u : Tid} (ht : 0 < (s.pc t).holds k) (hu : 0 < (s.pc u).holds k) :
    t = u := by
  by_contra hne
  have hone : s.chain.copies cfg k ≤ 1 := (h k).trans (by split <;> omega)
  have htwo : (s.pc u).holds k + (s.pc t).holds k ≤ tally (·.holds k) s.chain.pc := add_le_tally (·.holds k) s.pc hne
  simp only [Chain.copies] at hone
  omega

/-- What a step leaves to come, with what it does, was to come before. -/
theorem Sys.Allows.next (h : s'.Allows k as) (unique : Unique cfg s.chain) (hset : s.purged k.1 = true)
    (hlt : k.1 < s.requests.length) (hn : s.next cfg l = some s') : s.Allows k ((s.pc l.thread).actionOf k ++ as) := by
  have habort := next_abort hn
  rcases h with rfl | ⟨habort', u, w, hholds, hahead, has⟩
  · rw [List.append_nil]
    by_cases hnone : (s.pc l.thread).actionOf k = []
    · exact Or.inl hnone
    · obtain ⟨hholds, w, hahead, has⟩ := Pc.actionOf_ahead hnone
      exact Or.inr ⟨habort, l.thread, w, hholds, hahead, has⟩
  · rcases next_turns hn with hstop | ⟨hout, hpc⟩ | ⟨c, hpc, hturn⟩
    · rw [habort'] at hstop
      cases hstop
    · rw [hpc] at hholds hahead
      rw [hout]
      exact Or.inr ⟨habort, u, w, hholds, hahead, has⟩
    · rw [hpc, Function.update_apply] at hholds hahead
      split at hholds
      · next hu =>
        rw [if_pos hu] at hahead
        obtain ⟨hholds, w', hahead, has⟩ := hturn.ahead hset hlt hholds hahead has
        exact Or.inr ⟨habort, l.thread, w', hholds, hahead, has⟩
      · next hu =>
        rw [if_neg hu] at hahead
        -- The duplicate is with another thread, so this one does nothing for it.
        have hnone : (s.pc l.thread).actionOf k = [] := by
          by_contra hacts
          exact hu (unique.holder_eq hholds (Pc.actionOf_ahead hacts).1)
        rw [hnone]
        exact Or.inr ⟨habort, u, w, hholds, hahead, has⟩

omit [Fintype Tid] in
/-- A duplicate whose `PurgeState` is set already does not become the one that calls `done`. -/
theorem Chain.Step.winner {c c' : Chain Tid D} (hs : c.Step cfg c') (hset : c.purged k.1 = true) (h : c'.Winner k) :
    c.Winner k := by
  have quiet : ∀ {t : Tid} {p : Pc D}, (∀ r, p.wins r = 0) →
      ((∃ u job, Function.update c.pc t p u = .delivering job ∧ (StageJob.response job).key = k) ∨
        ∃ job ∈ c.delivered, (StageJob.response job).key = k) → c.Winner k := by
    rintro t p hp (⟨u, job, hpc, hkey⟩ | hdelivered)
    · rw [Function.update_apply] at hpc
      split at hpc
      · have hwins := hp job.jobData.purgeState
        simp [hpc, Pc.wins] at hwins
      · exact Or.inl ⟨u, job, hpc, hkey⟩
    · exact Or.inr hdelivered
  cases hs with
  | stay | lose => exact h
  | dispatch _ _ | duplicate _ _ _ _ | dispatched _ | take _ _ _ | register _ | fire _ _ _ | drop _ | pass _ _ =>
    exact quiet (fun _ => rfl) h
  | work works => exact quiet (fun r => (works.wins r).2) h
  | sweep _ next => exact quiet (fun r => by rcases next with rfl | ⟨_, rfl⟩ <;> rfl) h
  | @win t job pc fresh =>
    rcases h with ⟨u, job', hpc, hkey⟩ | hdelivered
    · dsimp only at hpc
      rw [Function.update_apply] at hpc
      split at hpc
      · cases hpc
        rw [← hkey] at hset
        exact absurd (fresh.symm.trans hset) Bool.false_ne_true
      · exact Or.inl ⟨u, job', hpc, hkey⟩
    · exact Or.inr hdelivered
  | @deliver t job pc =>
    rcases h with ⟨u, job', hpc, hkey⟩ | ⟨job', hmem, hkey⟩
    · exact quiet (fun _ => rfl) (Or.inl ⟨u, job', hpc, hkey⟩)
    · rcases List.mem_append.mp hmem with hmem | hmem
      · exact Or.inr ⟨job', hmem, hkey⟩
      · rw [List.mem_singleton.mp hmem] at hkey
        exact Or.inl ⟨t, job, pc, hkey⟩

omit [Fintype Tid] in
theorem Chain.Step.keeps_purged {c c' : Chain Tid D} (hs : c.Step cfg c') {r : Nat} (hset : c.purged r = true) :
    c'.purged r = true := by
  cases hs with
  | win _ _ =>
    dsimp only
    rw [Function.update_apply]
    split
    · rfl
    · exact hset
  | _ => exact hset

omit [Fintype Tid] in
theorem Chain.Step.keeps_delivered {c c' : Chain Tid D} (hs : c.Step cfg c') (job : Job (ResponseData D))
    (hjob : job ∈ c.delivered) : job ∈ c'.delivered := by
  cases hs with
  | deliver _ => exact List.mem_append_left _ hjob
  | _ => exact hjob

omit [Fintype Tid] in
/-- Only `PurgeState`s of requests are set. -/
theorem Chain.Step.purged_lt {c c' : Chain Tid D} (hs : c.Step cfg c') (issued : Issued c)
    (h : ∀ r, c.purged r = true → r < c.requests.length) (r : Nat) (hset : c'.purged r = true) : r < c'.requests.length := by
  cases hs with
  | dispatch _ _ =>
    rw [List.length_append]
    exact Nat.lt_add_right _ (h r hset)
  | @win t job pc _ =>
    dsimp only at hset ⊢
    rw [Function.update_apply] at hset
    split at hset
    · next hr =>
      have hjob : (c.pc t).job = some (.response job) := by rw [pc]; rfl
      have hbelongs : c.requests[job.jobData.purgeState]? = some job.jobId := (issued_of_job hjob).mp (issued.threads t)
      rw [hr]
      exact (List.getElem?_eq_some_iff.mp hbelongs).1
    · exact h r hset
  | _ => exact h r hset

variable {xs ys zs : List (Sys Tid D × Label Tid D)}

theorem purged_lt_of_run (run : (system Tid D cfg).Run xs s) : ∀ r, s.purged r = true → r < s.requests.length := by
  refine run.always (P := fun s => ∀ r, s.purged r = true → r < s.requests.length) (fun r hr => by cases hr) ?_
  intro xs s l s' run h hn
  have hinv := inv_of_run run
  exact (next_chain hinv.sound hn).2.purged_lt hinv.issued h

/-- From the setting of the `PurgeState` on, by induction on the steps after it. -/
theorem allows_of_run {s₀ : Sys Tid D} (run₀ : (system Tid D cfg).Run ys s₀) (run : (system Tid D cfg).Run (ys ++ zs) s)
    (hset : s₀.purged k.1 = true) (hother : ¬s₀.chain.Winner k) :
    s.purged k.1 = true ∧ ¬s.chain.Winner k ∧ ∀ as, s.Allows k as → s₀.Allows k (actions k zs ++ as) := by
  induction zs using List.reverseRecOn generalizing s with
  | nil =>
    rw [List.append_nil] at run
    rw [run.end_unique run₀]
    exact ⟨hset, hother, fun _ => id⟩
  | append_singleton zs x ih =>
    obtain ⟨r, l⟩ := x
    rw [← List.append_assoc] at run
    obtain ⟨run, hn⟩ := run.snoc_inv
    obtain ⟨hset, hother, hallows⟩ := ih run
    have hinv := inv_of_run run
    obtain ⟨-, hstep⟩ := next_chain hinv.sound hn
    refine ⟨hstep.keeps_purged hset, fun hwinner => hother (hstep.winner hset hwinner), fun as has => ?_⟩
    have hbefore := hallows _ (has.next hinv.unique hset (purged_lt_of_run run _ hset) hn)
    simpa [actions] using hbefore

/-- Once the `PurgeState` of a request is set, each of its duplicates but the one that has set it does at most what is
    left of one action, wherever it was, and does not call `done`. -/
theorem wastes_one_action {s₀ : Sys Tid D} (run₀ : (system Tid D cfg).Run ys s₀)
    (run : (system Tid D cfg).Run (ys ++ zs) s) (hset : s₀.purged k.1 = true) (hother : ¬s₀.chain.Winner k) :
    Action.One (actions k zs) ∧ ¬s.chain.Winner k := by
  obtain ⟨-, hwinner, hallows⟩ := allows_of_run run₀ run hset hother
  have hall := hallows [] (Or.inl rfl)
  rw [List.append_nil] at hall
  exact ⟨hall.one, hwinner⟩

/-- A request with two duplicates: the second one has passed its test in front of `Connect` when the first one, which has
    gone through the chain, sets their `PurgeState`. -/
def passedTest : List (Label Bool Nat) :=
  let ready : ReadyFor := ⟨true, true, 0⟩
  [.dispatch false ⟨7, 0, 0, ⟨["10.0.0.1", "10.0.0.2"], 3, 5⟩⟩ 1] ++ List.replicate 3 (.step false) ++
    [.take false .connect 0, .step false, .step false, .take true .connect 1, .step true,
      .fire false 0 4 ready, .step false, .step false,
      .take false .request 0, .step false, .send false true, .step false,
      .fire false 0 4 ready, .step false, .step false,
      .take false .response 0, .step false, .readHeader false (some ⟨11, 0, 3, 0, 2⟩),
      .read false (.bytes [1, 2]), .read false .closed, .step false, .step false]

theorem wastes_one_action_connect : ∃ ys zs s₀ s, (system Bool Nat ⟨fun _ => 1, true⟩).Run ys s₀ ∧
    (system Bool Nat ⟨fun _ => 1, true⟩).Run (ys ++ zs) s ∧ s₀.purged 0 = true ∧ ¬s₀.chain.Winner (0, 1) ∧
    actions (0, 1) zs = [.connect] ∧ Action.One (actions (0, 1) zs) ∧ ¬s.chain.Winner (0, 1) := by
  obtain ⟨ys, s₀, run₀, -, hs⟩ := Lts.run_of_exec_any (system Bool Nat ⟨fun _ => 1, true⟩) passedTest
    (fun s => decide (s.abort = none ∧ s.purged 0 = true ∧ s.pc true = .acting (.connect ⟨7, 1, 1, ⟨"10.0.0.2", 3, 5, 0⟩⟩) ∧
      s.pc false = .delivering ⟨7, 0, 1, ⟨4, 3, 2, some [1, 2], 5, 0⟩⟩)) (by decide)
  obtain ⟨habort, hset, hpc, hwins⟩ := of_decide_eq_true hs
  have hother : ¬s₀.chain.Winner (0, 1) := fun hwinner => by
    have hfirst : s₀.chain.Winner (0, 0) := Or.inl ⟨false, _, hwins, rfl⟩
    have heq : 0 = 1 := ((inv_of_run run₀).won.winner hset).unique hfirst hwinner
    exact absurd heq Nat.zero_ne_one
  have hn : (system Bool Nat ⟨fun _ => 1, true⟩).next s₀ (.step true) =
      some (s₀.register true (.connect ⟨7, 1, 1, ⟨"10.0.0.2", 3, 5, 0⟩⟩)) := by
    simp [system, Sys.next, habort, Sys.step, hpc]
  have hacts : actions (0, 1) [(s₀, Label.step true)] = [.connect] := by
    simp [actions, Label.thread, hpc, Pc.actionOf, Pc.action, StageJob.key, StageJob.purgeState, StageJob.priority]
  exact ⟨ys, _, s₀, _, run₀, run₀.step hn, hset, hother, hacts, wastes_one_action run₀ (run₀.step hn) hset hother⟩

end Dans.Client
