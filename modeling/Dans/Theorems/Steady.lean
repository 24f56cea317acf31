import Dans.Proxy
import Dans.Theorems.Busy

/-! Permissions in runs of the proxy scheduler, with one scheduling thread for each priority. A free primary
    slot has its permission. If the primary target is at least 2, the secondary permission is out unless
    something is left that will decide about it: the decision of the last primary job that completes then
    finds the primary permission granted already. -/

namespace Dans.Throttle

variable {W T : Type} {s s' : Sys (Proxy.Thread W) T} {l : Label (Proxy.Thread W) T} {t : Proxy.Thread W} {c : Pc T}

/-! ### Scheduling threads and their jobs -/

/-- A scheduling thread asks for jobs of its own priority, and nobody else asks. -/
def ownQueue [DecidableEq W] : Label (Proxy.Thread W) T → Bool
  | .dequeue t p => decide (t = .inl p)
  | _ => true

/-- The priority of a call of `Dequeue` that has no job yet. -/
def Pc.asks : Pc T → Option (Fin 2)
  | block p | queue p => some p
  | _ => none

/-- What is known of a decision: after scheduling, the job is live and of the priority of the call, and a
    primary call has a job. -/
def Known (live : List (ThrottleJob T)) : Decision → Prop
  | .afterScheduling p none => p ≠ kPrimaryPriority
  | .afterScheduling p (some n) => ∃ j ∈ live, j.serial = n ∧ j.prio = p
  | .completing _ => True

structure Flow (s : Sys (Proxy.Thread W) T) : Prop where
  owns : ∀ t p, (s.pc t).asks = some p → t = .inl p
  released : s.q.released = false
  unflagged : s.q.releaseOne 0 = false
  known : ∀ t d, (s.pc t).decision = some d → Known s.live d

variable [DecidableEq W]

theorem known_update {live : List (ThrottleJob T)} {pc : Proxy.Thread W → Pc T}
    (h : ∀ t d, (pc t).decision = some d → Known live d)
    (hc : ∀ d, c.decision = some d → (pc t).decision = some d ∨ Known live d) :
    ∀ u d, (Function.update pc t c u).decision = some d → Known live d := by
  intro u d hu
  rw [Function.update_apply] at hu
  split at hu
  · exact (hc d hu).elim (h t d) id
  · exact h u d hu

theorem owns_update {pc : Proxy.Thread W → Pc T} (h : ∀ t p, (pc t).asks = some p → t = .inl p)
    (hc : ∀ p, c.asks = some p → t = .inl p) : ∀ u p, (Function.update pc t c u).asks = some p → u = .inl p := by
  intro u p hu
  rw [Function.update_apply] at hu
  split at hu
  · next hut => exact hut ▸ hc p hu
  · exact h u p hu

theorem Flow.goto {th : Throttler} (h : Flow s) (howns : ∀ p, c.asks = some p → t = .inl p)
    (hc : ∀ d, c.decision = some d → (s.pc t).decision = some d ∨ Known s.live d) :
    Flow { s.goto t c with th := th } :=
  ⟨owns_update h.owns howns, h.released, h.unflagged, known_update h.known hc⟩

theorem Flow.effect (h : Flow s) (base : Base s) (hplain : plain l = true) (hown : ownQueue l = true)
    (he : Effect s l s') : Flow s' := by
  cases he with
  | @call t p ret pc =>
    have hp : t = .inl p := by simpa [ownQueue] using hown
    refine ⟨owns_update h.owns ?_, h.released, h.unflagged, known_update h.known nofun⟩
    rintro p' ⟨⟩
    exact hp
  | @block t p pc opened =>
    refine h.goto ?_ nofun
    rintro p' ⟨⟩
    exact h.owns t p (by rw [pc]; rfl)
  | @again t p q pc turn =>
    have hframe := s.q.dequeueTurn_frame p
    rw [turn] at hframe
    obtain ⟨-, hflags, hrel⟩ := hframe
    exact ⟨h.owns, hrel.trans h.released, (congrFun hflags 0).trans h.unflagged, h.known⟩
  | @null t p q pc turn =>
    have hframe := s.q.dequeueTurn_frame p
    rw [turn] at hframe
    obtain ⟨hwhy, -, hflags, hrel⟩ := hframe
    refine ⟨owns_update h.owns nofun, hrel.trans h.released, ?_, known_update h.known ?_⟩
    · exact Bool.eq_false_of_not_eq_true fun hset => by simpa [h.unflagged] using hflags 0 hset
    · rintro d ⟨⟩
      refine Or.inr fun hp => ?_
      subst hp
      simp [h.released, h.unflagged] at hwhy
  | @job t p q job pc turn =>
    have hframe := s.q.dequeueTurn_frame p
    rw [turn] at hframe
    obtain ⟨-, hflags, hrel⟩ := hframe
    exact ⟨owns_update h.owns nofun, hrel.trans h.released, (congrFun hflags 0).trans h.unflagged,
      known_update h.known nofun⟩
  | @wrap t p job pc hp =>
    have hgrow : ∀ t d, (s.pc t).decision = some d → Known (s.live ++ [.ofJob s.nextSerial job hp]) d := by
      intro t d hd
      have hknown := h.known t d hd
      cases d with
      | completing _ => trivial
      | afterScheduling p ret =>
        cases ret with
        | none => exact hknown
        | some n =>
          obtain ⟨j, hj, hn, hprio⟩ := hknown
          exact ⟨j, List.mem_append_left _ hj, hn, hprio⟩
    refine ⟨owns_update h.owns nofun, h.released, h.unflagged, known_update hgrow ?_⟩
    rintro d ⟨⟩
    refine Or.inr ⟨_, List.mem_append_right _ (List.mem_singleton_self _), rfl, Fin.ext ?_⟩
    exact base.wraps t p job pc
  | @complete t ret serial j pc found free =>
    have hkeep : ∀ t d, (s.pc t).decision = some d → Known (s.live.eraseP (·.serial == serial)) d := by
      intro t d hd
      have hknown := h.known t d hd
      cases d with
      | completing _ => trivial
      | afterScheduling p ret =>
        cases ret with
        | none => exact hknown
        | some n =>
          obtain ⟨j, hj, hn, hprio⟩ := hknown
          -- The job in hand is not the one that is completed.
          have hne : n ≠ serial := fun heq => free t (by simp [Pc.hand, hd, Decision.ret, heq])
          exact ⟨j, (List.mem_eraseP_of_neg (by simpa [hn] using hne)).mpr hj, hn, hprio⟩
    refine ⟨owns_update h.owns nofun, h.released, h.unflagged, known_update hkeep ?_⟩
    rintro d ⟨⟩
    exact Or.inr trivial
  | clear pc _ | enter pc _ | count pc | size pc | grant pc _ | keep pc _ =>
    refine h.goto nofun fun d hd => Or.inl ?_
    rw [pc]
    exact hd
  | hold pc _ | low pc _ => exact h.goto nofun nofun
  | sendAway pc _ =>
    refine ⟨owns_update h.owns nofun, by simpa using h.released, ?_, known_update h.known nofun⟩
    rw [MultiQueue.releaseOneAt_releaseOne]
    split
    · simpa using h.unflagged
    · exact h.unflagged
  | @queueOp op q ret other done =>
    cases op with
    | enqueue job =>
      simp only [MultiQueue.call, MultiQueue.enqueue] at done
      split at done <;> cases done
      have hgates := MultiQueue.insertEntry_gates (s.q.insertNode job) job s.q.nextAddr
      exact ⟨h.owns, by rw [hgates.released]; simpa using h.released,
        by rw [hgates.releaseOne]; simpa using h.unflagged, h.known⟩
    | _ => cases hplain
  | setThrottle _ => cases hplain
  | fail => exact ⟨h.owns, h.released, h.unflagged, h.known⟩

/-! ### The primary permission -/

/-- In the decision after a primary `Dequeue`, with the waiting flag cleared and the count not yet tested. -/
def Pc.replaces : Pc T → Bool
  | count (.afterScheduling p _) | size (.afterScheduling p _) _ | primary (.afterScheduling p _) _ => p == kPrimaryPriority
  | _ => false

/-- After the completion of a primary job, with the count not yet tested. -/
def Pc.frees : Pc T → Bool
  | enter (.completing p) | count (.completing p) | size (.completing p) _ | primary (.completing p) _ =>
    p == kPrimaryPriority
  | _ => false

/-- While no primary permission is out, the primary jobs fill their target up to the completions that have
    still to decide. -/
def Filled (th : Throttler) (pc : Proxy.Thread W → Pc T) : Prop :=
  th.primaryWaiting = true ∨ (∃ t, (pc t).replaces = true) ∨
    th.throttleTargets kPrimaryPriority ≤ th.scheduledCounts kPrimaryPriority ∨
    (∃ t, (pc t).frees = true ∧ th.throttleTargets kPrimaryPriority ≤ th.scheduledCounts kPrimaryPriority + 1) ∨
    ∃ t u, t ≠ u ∧ (pc t).frees = true ∧ (pc u).frees = true

theorem exists_update {pc : Proxy.Thread W → Pc T} {f : Pc T → Bool} (h : ∃ u, f (pc u) = true)
    (hc : f (pc t) = true → f c = true) : ∃ u, f (Function.update pc t c u) = true := by
  obtain ⟨u, hu⟩ := h
  by_cases hut : u = t
  · exact ⟨t, by simpa using hc (hut ▸ hu)⟩
  · exact ⟨u, by simpa [hut] using hu⟩

theorem frees_update {pc : Proxy.Thread W → Pc T} {u : Proxy.Thread W} (hu : (pc u).frees = true)
    (hc : (pc t).frees = true → c.frees = true) : (Function.update pc t c u).frees = true := by
  rw [Function.update_apply]
  split
  · next hut => exact hc (hut ▸ hu)
  · exact hu

theorem Filled.update {th th' : Throttler} {pc : Proxy.Thread W → Pc T} (h : Filled th pc)
    (hwait : th'.primaryWaiting = th.primaryWaiting)
    (htarget : th'.throttleTargets kPrimaryPriority = th.throttleTargets kPrimaryPriority)
    (hcount : th.scheduledCounts kPrimaryPriority ≤ th'.scheduledCounts kPrimaryPriority)
    (hreplaces : (pc t).replaces = true → c.replaces = true) (hfrees : (pc t).frees = true → c.frees = true) :
    Filled th' (Function.update pc t c) := by
  rcases h with hw | hr | hle | ⟨u, hu, hle⟩ | ⟨u, v, huv, hu, hv⟩
  · exact Or.inl (hwait.trans hw)
  · exact Or.inr (Or.inl (exists_update hr hreplaces))
  · exact Or.inr (Or.inr (Or.inl (by omega)))
  · exact Or.inr (Or.inr (Or.inr (Or.inl ⟨u, frees_update hu hfrees, by omega⟩)))
  · exact Or.inr (Or.inr (Or.inr (Or.inr ⟨u, v, huv, frees_update hu hfrees, frees_update hv hfrees⟩)))

theorem Filled.complete {th : Throttler} {pc : Proxy.Thread W → Pc T} (h : Filled th pc) {ret : Option Nat}
    (hpc : pc t = .outside ret) : Filled (th.addCount 0 (-1)) (Function.update pc t (.enter (.completing 0))) := by
  have hother : ∀ {u}, (pc u).frees = true → u ≠ t := by
    rintro u hu rfl
    simp [hpc, Pc.frees] at hu
  have hself : (Function.update pc t (.enter (.completing 0)) t).frees = true := by simp [Pc.frees]
  have hcount : (th.addCount 0 (-1)).scheduledCounts kPrimaryPriority = th.scheduledCounts kPrimaryPriority + -1 := by
    simp [Throttler.addCount]
  have hfrees : (pc t).frees = true → (Pc.enter (.completing 0) : Pc T).frees = true := fun _ => rfl
  rcases h with hw | hr | hle | ⟨u, hu, -⟩ | ⟨u, v, huv, hu, hv⟩
  · exact Or.inl hw
  · exact Or.inr (Or.inl (exists_update hr (by simp [hpc, Pc.replaces])))
  · refine Or.inr (Or.inr (Or.inr (Or.inl ⟨t, hself, ?_⟩)))
    rw [hcount]
    show th.throttleTargets kPrimaryPriority ≤ _
    omega
  · exact Or.inr (Or.inr (Or.inr (Or.inr ⟨u, t, hother hu, frees_update hu hfrees, hself⟩)))
  · exact Or.inr (Or.inr (Or.inr (Or.inr ⟨u, v, huv, frees_update hu hfrees, frees_update hv hfrees⟩)))

theorem Filled.effect (h : Filled s.th s.pc) (hplain : plain l = true) (he : Effect s l s') : Filled s'.th s'.pc := by
  cases he with
  | grant pc _ => exact Or.inl rfl
  | keep pc grants =>
    simp only [Throttler.grantsPrimary, Bool.and_eq_false_iff, decide_eq_false_iff_not, Int.not_lt, Bool.not_eq_false']
      at grants
    exact grants.symm.imp_right fun hle => Or.inr (Or.inl hle)
  | @clear t p ret pc _ =>
    by_cases hp : p = 0
    · exact Or.inr (Or.inl ⟨t, by simp [Sys.goto, Pc.replaces, hp]⟩)
    · refine h.update ?_ (by simp) (by simp) (by simp [pc, Pc.replaces]) (by simp [pc, Pc.frees])
      simp [Throttler.setWaiting, hp]
  | wrap pc hp =>
    refine h.update rfl rfl ?_ (by simp [pc, Pc.replaces]) (by simp [pc, Pc.frees])
    simp only [Throttler.addCount, Function.update_apply]
    split
    · next hzero => rw [← hzero]; omega
    · exact le_rfl
  | @complete t ret serial j pc found free =>
    by_cases hp : j.prio = 0
    · have := h.complete pc
      rw [← hp] at this
      exact this
    · refine h.update rfl rfl ?_ (by simp [pc, Pc.replaces]) (by simp [pc, Pc.frees])
      simp [Throttler.addCount, Ne.symm hp]
  | @enter t p pc _ => exact h.update rfl rfl le_rfl (by simp [pc, Pc.replaces]) (by simp [pc, Pc.frees])
  | @count t d pc | @size t d count pc =>
    refine h.update rfl rfl le_rfl ?_ ?_ <;> cases d <;> simp [pc, Pc.replaces, Pc.frees]
  | low pc _ => exact h.update rfl rfl le_rfl (by simp [pc, Pc.replaces]) (by simp [pc, Pc.frees])
  | call pc | block pc _ | null pc _ | job pc _ | hold pc _ | sendAway pc _ =>
    exact h.update rfl rfl le_rfl (by simp [pc, Pc.replaces]) (by simp [pc, Pc.frees])
  | again _ _ | queueOp _ _ | fail => exact h
  | setThrottle _ => cases hplain

/-! ### What a decision remembers -/

/-- The primary jobs scheduled or queued. -/
def Sys.high (s : Sys (Proxy.Thread W) T) : Int :=
  s.th.scheduledCounts kPrimaryPriority + (s.q.priorityQs 0).length

/-- What a decision remembers is still there, or another thread is busy. -/
def Stored (s : Sys (Proxy.Thread W) T) (t : Proxy.Thread W) : Prop :=
  s.Others t ∨
    match s.pc t with
    | .size _ count => count ≤ s.th.scheduledCounts kPrimaryPriority
    | .primary _ high => high ≤ s.high
    | .secondary _ high attempted => high ≤ s.high ∧ (attempted = true → 1 ≤ s.th.scheduledCounts kPrimaryPriority)
    | _ => True

/-- A step of another thread makes neither the count nor the list smaller, or leaves that thread busy. -/
theorem Stored.other (h : Stored s t) (locked : Exclusion.One (fun c : Pc T => c.locked = true) s.pc)
    (hplain : plain l = true) (he : Effect s l s') (hlock : (s.pc t).locked = true) (hl : l ≠ .step t) : Stored s' t := by
  have hbusy := Pc.busy_of_locked hlock
  have newly : (∃ u, (s.pc u).busy = false ∧ (s'.pc u).busy = true) → Stored s' t := by
    rintro ⟨u, hidle, hu⟩
    exact Or.inl ⟨u, by rintro rfl; simp [hbusy] at hidle, hu⟩
  rcases h with hothers | hstored
  · exact Or.inl (others_kept locked he hlock hothers)
  · rcases counts_kept he 0 with hcount | hnew
    · rcases primary_kept he hplain with hlist | hnew
      · refine Or.inr ?_
        have hhigh : s.high ≤ s'.high := Int.add_le_add hcount (Int.ofNat_le.mpr hlist)
        rw [pc_of_locked he hl hlock]
        cases hpc : s.pc t with
        | size d count =>
          rw [hpc] at hstored
          exact le_trans hstored hcount
        | primary d high =>
          rw [hpc] at hstored
          exact le_trans hstored hhigh
        | secondary d high attempted =>
          rw [hpc] at hstored
          exact ⟨hstored.1.trans hhigh, fun ha => (hstored.2 ha).trans hcount⟩
        | _ => trivial
      · exact newly hnew
    · exact newly hnew

omit [DecidableEq W] in
theorem stored_of_unlocked (hlock : (s.pc t).locked = false) : Stored s t := by
  refine Or.inr ?_
  cases hpc : s.pc t <;> simp_all [Pc.locked]

/-- A decision that has to grant a primary permission leaves a primary job, or another busy thread, if the
    target is at least 2. -/
theorem one_le_count_of_grant (filled : Filled s.th s.pc) (flow : Flow s) (base : Base s) {d : Decision} {high : Int}
    (pc : s.pc t = .primary d high) (grants : s.th.grantsPrimary = true) (htwo : 2 ≤ s.th.throttleTargets 0) :
    s.Others t ∨ 1 ≤ s.th.scheduledCounts 0 := by
  simp only [Throttler.grantsPrimary, Bool.and_eq_true, decide_eq_true_eq, Bool.not_eq_true'] at grants
  have hlock : (s.pc t).locked = true := by rw [pc]; rfl
  have hbusy : ∀ {u}, (s.pc u).frees = true → (s.pc u).busy = true := by
    intro u hu
    cases hpc : s.pc u <;> simp_all [Pc.frees, Pc.busy]
  rcases filled with hw | ⟨u, hu⟩ | hle | ⟨u, hu, hle⟩ | ⟨u, v, huv, hu, hv⟩
  · simp [hw] at grants
  · -- The decision after a primary `Dequeue`: its job is live.
    have hulock : (s.pc u).locked = true := by
      cases hpc : s.pc u <;> simp_all [Pc.replaces, Pc.locked]
    have hut : u = t := base.locked u t hulock hlock
    rw [hut, pc] at hu
    cases d with
    | completing p => simp [Pc.replaces] at hu
    | afterScheduling p ret =>
      have hp : p = 0 := by simpa [Pc.replaces] using hu
      have hknown := flow.known t _ (by rw [pc]; rfl)
      cases ret with
      | none => exact absurd hp hknown
      | some n =>
        obtain ⟨j, hj, -, hprio⟩ := hknown
        refine Or.inr ?_
        rw [base.counted 0]
        have hpos : 0 < s.live.countP (·.prio == 0) := List.countP_pos_iff.mpr ⟨j, hj, by simp [hprio, hp]⟩
        omega
  · exact absurd grants.1 (Int.not_lt.mpr hle)
  · by_cases hut : u = t
    · exact Or.inr (Int.le_of_add_le_add_right (htwo.trans hle))
    · exact Or.inl ⟨u, hut, hbusy hu⟩
  · by_cases hut : u = t
    · exact Or.inl ⟨v, fun hvt => huv (hut.trans hvt.symm), hbusy hv⟩
    · exact Or.inl ⟨u, hut, hbusy hu⟩

theorem others_goto (th : Throttler) (q : MultiQueue T) (h : s.Others t) :
    ({ s.goto t c with th := th, q := q } : Sys (Proxy.Thread W) T).Others t := by
  obtain ⟨u, hut, hu⟩ := h
  exact ⟨u, hut, by simpa [Sys.goto, hut] using hu⟩

theorem Stored.effect (h : ∀ t, Stored s t) (filled : Filled s.th s.pc) (flow : Flow s) (base : Base s)
    (htwo : 2 ≤ s.th.throttleTargets 0) (hplain : plain l = true) (he : Effect s l s') (t : Proxy.Thread W) :
    Stored s' t := by
  by_cases hlock' : (s'.pc t).locked = true
  swap
  · exact stored_of_unlocked (Bool.eq_false_of_not_eq_true hlock')
  by_cases hl : l = .step t
  · subst hl
    have hself := h t
    cases he with
    | clear pc _ | enter pc _ => exact Or.inr (by simp [Sys.goto])
    | count pc => exact Or.inr (by simp [Sys.goto])
    | size pc =>
      rcases hself with hothers | hstored
      · exact Or.inl (others_goto s.th s.q hothers)
      · rw [pc] at hstored
        refine Or.inr ?_
        simp only [Sys.goto, Function.update_self, Sys.high, MultiQueue.size]
        exact Int.add_le_add_right hstored _
    | grant pc grants =>
      rcases hself with hothers | hstored
      · exact Or.inl (others_goto _ s.q hothers)
      · rw [pc] at hstored
        rcases one_le_count_of_grant filled flow base pc grants htwo with hothers | hone
        · exact Or.inl (others_goto _ s.q hothers)
        · refine Or.inr ?_
          simp only [Sys.goto, Function.update_self, Sys.high, grant_counts]
          exact ⟨hstored, fun _ => hone⟩
    | keep pc _ =>
      rcases hself with hothers | hstored
      · exact Or.inl (others_goto s.th s.q hothers)
      · rw [pc] at hstored
        refine Or.inr ?_
        simp only [Sys.goto, Function.update_self, Sys.high]
        exact ⟨hstored, by simp⟩
    | again pc _ => simp [pc, Pc.locked] at hlock'
    | fail => exact hself
    | block _ _ | null _ _ | job _ _ | wrap _ _ | hold _ _ | sendAway _ _ | low _ _ => simp [Sys.goto, Pc.locked] at hlock'
  · by_cases hlock : (s.pc t).locked = true
    · exact (h t).other base.locked hplain he hlock hl
    · -- A thread comes to hold the lock by its own steps only.
      exfalso
      have hsame : ∀ {u c}, t ≠ u → (Function.update s.pc u c t).locked = true → False := fun htu hc =>
        hlock (by simpa [htu] using hc)
      cases he with
      | again _ _ | setThrottle _ | queueOp _ _ | fail => exact hlock hlock'
      | @call u p ret pc =>
        by_cases htu : t = u
        · simp [Sys.goto, htu, Pc.locked] at hlock'
        · exact hsame htu hlock'
      | @complete u ret serial j pc _ _ =>
        by_cases htu : t = u
        · simp [Sys.goto, htu, Pc.locked] at hlock'
        · exact hsame htu hlock'
      | block pc _ | null pc _ | job pc _ | wrap pc _ | clear pc _ | enter pc _ | count pc | size pc | grant pc _
      | keep pc _ | hold pc _ | sendAway pc _ | low pc _ => exact hsame (fun htu => hl (by rw [htu])) hlock'

/-! ### The secondary permission -/

/-- The secondary permission is out, or something is left that will decide about it. -/
def Room (s : Sys (Proxy.Thread W) T) : Prop :=
  s.th.secondaryWaiting = true ∨ 1 ≤ s.th.scheduledCounts kPrimaryPriority ∨
    1 ≤ s.th.scheduledCounts kSecondaryPriority ∨ s.q.priorityQs 0 ≠ [] ∨ ∃ t, (s.pc t).busy = true

omit [DecidableEq W] in
theorem Room.of_high (h : 1 ≤ s.high) : Room s := by
  by_cases hempty : s.q.priorityQs 0 = []
  · refine Or.inr (Or.inl ?_)
    simpa [Sys.high, hempty] using h
  · exact Or.inr (Or.inr (Or.inr (Or.inl hempty)))

/-- A decision that does not grant the secondary permission leaves something behind that will decide. -/
theorem Room.hold (stored : Stored s t) (htwo : 2 ≤ s.th.throttleTargets 0) (hone : 1 ≤ s.th.throttleTargets 1)
    {d : Decision} {high : Int} {attempted : Bool} (pc : s.pc t = .secondary d high attempted)
    (why : s.th.throttleTargets 0 ≤ high ∨ s.th.grantsSecondary attempted = false) (c : Pc T) : Room (s.goto t c) := by
  rcases stored with ⟨u, hut, hu⟩ | hstored
  · exact Or.inr (Or.inr (Or.inr (Or.inr ⟨u, by simpa [Sys.goto, hut] using hu⟩)))
  · rw [pc] at hstored
    rcases why with hhigh | hgrants
    · exact Room.of_high (s := s.goto t c) (show 1 ≤ s.high by have := hstored.1; omega)
    · simp only [Throttler.grantsSecondary, Bool.and_eq_false_iff, decide_eq_false_iff_not, Int.not_lt,
        Bool.not_eq_false'] at hgrants
      rcases hgrants with (hcount | hwait) | hattempted
      · exact Or.inr (Or.inr (Or.inl (hone.trans hcount)))
      · exact Or.inl hwait
      · exact Or.inr (Or.inl (hstored.2 hattempted))

theorem Room.effect (h : Room s) (stored : ∀ t, Stored s t) (htwo : 2 ≤ s.th.throttleTargets 0)
    (hone : 1 ≤ s.th.throttleTargets 1) (hplain : plain l = true) (he : Effect s l s') : Room s' := by
  have hbusy : (∃ u, (s'.pc u).busy = true) → Room s' := fun hu => Or.inr (Or.inr (Or.inr (Or.inr hu)))
  by_cases hend : ∃ t, l = .step t ∧ (s.pc t).locked = true
  · obtain ⟨t, rfl, hlock⟩ := hend
    cases he with
    | hold pc why => exact Room.hold (stored t) htwo hone pc why _
    | sendAway pc waits => exact Or.inl waits
    | low pc _ => exact Or.inl rfl
    | count _ | size _ | grant _ _ | keep _ _ => exact hbusy ⟨t, by simp [Sys.goto, Pc.busy]⟩
    | fail => exact h
    | block pc _ | again pc _ | null pc _ | job pc _ | wrap pc _ | clear pc _ | enter pc _ => simp [pc, Pc.locked] at hlock
  · -- Any other step keeps busy threads busy, and makes busy whoever makes a count or the list smaller.
    have hkeep : ∀ u, (s.pc u).busy = true → (s'.pc u).busy = true := fun u hu =>
      (busy_kept he hu).resolve_right fun hu => hend ⟨u, hu.2, hu.1⟩
    rcases h with hwait | hcount | hcount | hne | ⟨u, hu⟩
    · cases he with
      | @clear t p ret pc _ => exact hbusy ⟨t, by simp [Sys.goto, Pc.busy]⟩
      | setThrottle _ => cases hplain
      | @grant t _ _ pc _ => exact hbusy ⟨t, by simp [Sys.goto, Pc.busy]⟩
      | low pc _ => exact Or.inl rfl
      | call _ | block _ _ | again _ _ | null _ _ | job _ _ | wrap _ _ | enter _ _ | count _ | size _ | keep _ _ | hold _ _
      | sendAway _ _ | complete _ _ _ | queueOp _ _ | fail => exact Or.inl hwait
    · rcases counts_kept he 0 with hle | ⟨u, -, hu⟩
      · exact Or.inr (Or.inl (hcount.trans hle))
      · exact hbusy ⟨u, hu⟩
    · rcases counts_kept he 1 with hle | ⟨u, -, hu⟩
      · exact Or.inr (Or.inr (Or.inl (hcount.trans hle)))
      · exact hbusy ⟨u, hu⟩
    · rcases primary_kept he hplain with hle | ⟨u, -, hu⟩
      · refine Or.inr (Or.inr (Or.inr (Or.inl fun hempty => ?_)))
        have hpos := List.length_pos_iff.mpr hne
        rw [hempty] at hle
        exact absurd hle (Nat.not_le_of_lt hpos)
      · exact hbusy ⟨u, hu⟩
    · exact hbusy ⟨u, hkeep u hu⟩

/-! ### Whole runs -/

variable [Fintype W] {targets : Fin 2 → Int} {xs : List (Sys (Proxy.Thread W) T × Label (Proxy.Thread W) T)}

/-- What holds in runs of the scheduling threads. -/
structure Steady (targets : Fin 2 → Int) (s : Sys (Proxy.Thread W) T) : Prop where
  targets_eq : s.th.throttleTargets = targets
  flow : Flow s
  covered : Covered s.th s.pc
  filled : Filled s.th s.pc
  stored : 2 ≤ targets 0 → ∀ t, Stored s t
  room : 2 ≤ targets 0 → 1 ≤ targets 1 → Room s

omit [DecidableEq W] [Fintype W] in
theorem Steady.start : Steady targets (start (Proxy.Thread W) T targets) where
  targets_eq := rfl
  flow := ⟨nofun, rfl, rfl, nofun⟩
  covered := .start
  filled := by
    by_cases h : targets 0 = 0
    · exact Or.inr (Or.inr (Or.inl (by simp [Throttle.start, Throttler.new, h])))
    · exact Or.inl (by simp [Throttle.start, Throttler.new, h])
  stored _ _ := stored_of_unlocked rfl
  room _ hone := by
    have hne : targets 1 ≠ 0 := by omega
    exact Or.inl (by simp [Throttle.start, Throttler.new, hne])

theorem Steady.effect (h : Steady targets s) (base : Base s) (hplain : plain l = true) (hown : ownQueue l = true)
    (he : Effect s l s') : Steady targets s' where
  targets_eq := by
    funext p
    rw [he.targets, h.targets_eq]
    rintro v rfl
    cases hplain
  flow := h.flow.effect base hplain hown he
  covered := by
    refine h.covered.effect ?_ he
    cases l with
    | setThrottle _ _ => cases hplain
    | _ => rfl
  filled := h.filled.effect hplain he
  stored htwo := Stored.effect (h.stored htwo) h.filled h.flow base (by rw [h.targets_eq]; exact htwo) hplain he
  room htwo hone := (h.room htwo hone).effect (h.stored htwo) (by rw [h.targets_eq]; exact htwo)
    (by rw [h.targets_eq]; exact hone) hplain he

end Dans.Throttle
