import Dans.Theorems.Steady

/-! When the proxy scheduler goes idle. Nobody but the arrivals wakes an idle scheduler, so every permission
    must be out before it goes idle: with a secondary target of 0 or a primary target of at least 2 it is,
    with a primary target of 0 or 1 the secondary jobs can be left behind. -/

namespace Dans.Throttle

variable {W T : Type} {s : Sys (Proxy.Thread W) T} {l : Label (Proxy.Thread W) T} {t : Proxy.Thread W}

/-! ### A target that is not looked at -/

/-- The same state with another secondary target. -/
def Sys.retarget (v : Int) (s : Sys (Proxy.Thread W) T) : Sys (Proxy.Thread W) T :=
  { s with th := s.th.setTarget kSecondaryPriority v }

/-- The step does not look at the secondary target, or what it finds does not matter. -/
def ignores (s : Sys (Proxy.Thread W) T) : Label (Proxy.Thread W) T → Bool
  | .step t =>
    match s.pc t with
    | .secondary _ high attempted => decide (s.th.throttleTargets kPrimaryPriority ≤ high) || attempted
    | _ => true
  | .setThrottle _ _ => false
  | _ => true

variable [DecidableEq W] [Fintype W]

theorem step_retarget (v : Int) (h : ignores s (.step t) = true) :
    (s.retarget v).step t = (s.step t).map (Sys.retarget v) := by
  have hpc : (s.retarget v).pc t = s.pc t := rfl
  cases hc : s.pc t with
  | outside ret => simp [Sys.step, hpc, hc]
  | block p =>
    simp only [Sys.step, hpc, hc]
    show (if s.th.throttleBlocks p = true then _ else _) = _
    split <;> rfl
  | queue p =>
    have hq : (s.retarget v).q = s.q := rfl
    simp only [Sys.step, hpc, hc, hq]
    cases s.q.dequeueTurn p with
    | returns q job => cases job <;> rfl
    | _ => rfl
  | wrap p job =>
    simp only [Sys.step, hpc, hc, Sys.makeJob]
    split <;> rfl
  | enter d =>
    simp only [Sys.step, hpc, hc]
    show (if s.StateFree then _ else _) = _
    split
    · cases d with
      | completing p => rfl
      | afterScheduling p ret =>
        simp only [Sys.lockState, Sys.retarget, Throttler.setTarget, Throttler.setWaiting, Option.map_some]
        split <;> rfl
    · rfl
  | count d => simp only [Sys.step, hpc, hc]; rfl
  | size d count => simp only [Sys.step, hpc, hc]; rfl
  | primary d high =>
    simp only [Sys.step, hpc, hc]
    show (if s.th.grantsPrimary = true then _ else _) = _
    split <;> rfl
  | secondary d high attempted =>
    simp only [ignores, hc, Bool.or_eq_true, decide_eq_true_eq] at h
    simp only [Sys.step, hpc, hc, Sys.adjustLow]
    show some ((if s.th.throttleTargets 0 ≤ high then _ else _ : Sys (Proxy.Thread W) T).goto t _) = _
    by_cases hroom : s.th.throttleTargets 0 ≤ high
    · simp only [hroom, ↓reduceIte]
      cases d with
      | completing p => rfl
      | afterScheduling p ret =>
        dsimp only
        show some ((if s.th.secondaryWaiting = true then _ else _ : Sys (Proxy.Thread W) T).goto t _) = _
        split <;> rfl
    · have hatt : attempted = true := h.resolve_left hroom
      simp only [hroom, hatt, Throttler.grantsSecondary, Bool.not_true, Bool.and_false, ↓reduceIte]
      rfl

theorem next_retarget (v : Int) (h : ignores s l = true) : (s.retarget v).next l = (s.next l).map (Sys.retarget v) := by
  have hpc : (s.retarget v).pc = s.pc := rfl
  have hlive : (s.retarget v).live = s.live := rfl
  have hq : (s.retarget v).q = s.q := rfl
  have habort : (s.retarget v).abort = s.abort := rfl
  unfold Sys.next
  rw [habort]
  split
  · rfl
  · cases l with
    | dequeue t p =>
      simp only [hpc]
      cases s.pc t <;> rfl
    | step t => exact step_retarget v h
    | complete t serial =>
      simp only [Sys.complete, hpc, hlive]
      cases s.pc t with
      | outside ret =>
        cases s.live.find? (·.serial == serial) with
        | none => rfl
        | some j =>
          dsimp only
          show (if s.NotInHand serial then _ else _) = _
          split <;> rfl
      | _ => rfl
    | setThrottle p v => cases h
    | queueOp op =>
      simp only [Sys.queueOp, hq]
      cases op <;> cases s.q.call _ <;> rfl

end Dans.Throttle

namespace Dans.Proxy

variable {W T : Type} {s s' : Sys W T} {l : Label W T}

/-! ### The proxy scheduler -/

/-- Arrivals, dequeues and completions: the scheduler is not being shut down. -/
def serving : Label W T → Bool
  | .destruct | .release => false
  | _ => true

/-- No job is live, no decision function is running or about to run, and each scheduling thread is blocked
    on its throttle block or is inside `MultiQueue::Dequeue` on an empty list. -/
structure Idle (s : Sys W T) : Prop where
  live : s.th.live = []
  settled : ∀ t, (s.th.pc t).busy = false
  blocked : ∀ p : Fin 2, s.th.pc (.inl p) = .block p ∧ s.th.th.throttleBlocks p = false ∨
    s.th.pc (.inl p) = .queue p ∧ s.th.q.priorityQs p = []

instance [Fintype W] [DecidableEq T] (s : Sys W T) : Decidable (Idle s) :=
  decidable_of_iff (s.th.live = [] ∧ (∀ t, (s.th.pc t).busy = false) ∧
    ∀ p : Fin 2, s.th.pc (.inl p) = .block p ∧ s.th.th.throttleBlocks p = false ∨
      s.th.pc (.inl p) = .queue p ∧ s.th.q.priorityQs p = [])
    ⟨fun ⟨live, settled, blocked⟩ => ⟨live, settled, blocked⟩, fun h => ⟨h.live, h.settled, h.blocked⟩⟩

/-- In an idle scheduler a thread whose permission is out waits for jobs, not for the permission. -/
theorem Idle.empty_of_waiting (idle : Idle s) (base : Throttle.Base s.th) (flow : Throttle.Flow s.th) {p : Fin 2}
    (hwait : s.th.th.waiting p = true) : s.th.q.priorityQs p = [] := by
  rcases idle.blocked p with ⟨hpc, hblock⟩ | ⟨-, hempty⟩
  · exfalso
    rcases (base.tokens.waiting p).mp hwait with hopen | ⟨t, ht⟩
    · simp [hblock] at hopen
    · have hbusy := idle.settled t
      have hqueue : s.th.pc t = .queue p := by
        cases hc : s.th.pc t <;> simp_all [Throttle.Pc.token, Throttle.Pc.busy]
      have hself := flow.owns t p (by rw [hqueue]; rfl)
      rw [← hself, hqueue] at hpc
      cases hpc
  · exact hempty

variable [Fintype W] [DecidableEq W]

/-- A step of a scheduler that is serving is a step of the throttler, or none. -/
theorem next_throttle (h : s.next l = some s') (hl : serving l = true) : s'.th = s.th ∨
    ∃ tl, Throttle.plain tl = true ∧ Throttle.ownQueue tl = true ∧ s.th.next tl = some s'.th := by
  cases l with
  | loop p =>
    simp only [Sys.next, Sys.turn] at h
    split at h
    · split at h
      · cases h
        exact Or.inl rfl
      · obtain ⟨th, hth, rfl⟩ := Option.map_eq_some_iff.mp h
        exact Or.inr ⟨_, rfl, by simp [Throttle.ownQueue], hth⟩
    · obtain ⟨th, hth, rfl⟩ := Option.map_eq_some_iff.mp h
      exact Or.inr ⟨_, rfl, rfl, hth⟩
    · cases h
      exact Or.inl rfl
    · cases h
  | worker w =>
    obtain ⟨th, hth, rfl⟩ := Option.map_eq_some_iff.mp h
    exact Or.inr ⟨_, rfl, rfl, hth⟩
  | arrive job =>
    obtain ⟨th, hth, rfl⟩ := Option.map_eq_some_iff.mp h
    exact Or.inr ⟨_, rfl, rfl, hth⟩
  | complete t serial =>
    simp only [Sys.next] at h
    split at h
    · obtain ⟨th, hth, rfl⟩ := Option.map_eq_some_iff.mp h
      exact Or.inr ⟨_, rfl, rfl, hth⟩
    · cases h
  | destruct => cases hl
  | release => cases hl

variable {targets : Fin 2 → Int} {xs : List (Sys W T × Label W T)}

theorem steady_of_run (run : (system W T targets).Run xs s) (hok : Lts.Meets (fun _ l => serving l = true) xs) :
    Throttle.Base s.th ∧ Throttle.Steady targets s.th := by
  refine run.invariant (P := fun s => Throttle.Base s.th ∧ Throttle.Steady targets s.th) hok
    ⟨Throttle.Base.start, Throttle.Steady.start⟩ fun _ h hl hn => ?_
  rcases next_throttle hn hl with heq | ⟨tl, hplain, hown, htl⟩
  · rw [heq]
    exact h
  · have he := Throttle.next_effect htl
    exact ⟨h.1.effect he, h.2.effect h.1 hplain hown he⟩

/-- No queued job is left behind in an idle scheduler, if the secondary target is 0 or the primary one at
    least 2. -/
theorem idle_empty (run : (system W T targets).Run xs s) (hok : Lts.Meets (fun _ l => serving l = true) xs)
    (hcond : targets 1 = 0 ∨ 2 ≤ targets 0) (idle : Idle s) {p : Fin 2} (hp : 0 < targets p) :
    s.th.q.priorityQs p = [] := by
  obtain ⟨base, steady⟩ := steady_of_run run hok
  have hcount : ∀ p, s.th.th.scheduledCounts p = 0 := fun p => by rw [base.counted p, idle.live]; rfl
  have hprimary : 0 < targets 0 → s.th.q.priorityQs 0 = [] := by
    intro hpos
    refine idle.empty_of_waiting (p := 0) base steady.flow ?_
    rcases steady.covered with hw | hle | ⟨t, ht⟩
    · exact hw
    · rw [hcount 0, steady.targets_eq] at hle
      exact absurd hpos (Int.not_lt.mpr hle)
    · have hbusy := idle.settled t
      cases hc : s.th.pc t <;> simp_all [Throttle.Pc.deciding, Throttle.Pc.busy]
  by_cases hzero : p = 0
  · subst hzero
    exact hprimary hp
  · have hone : p = 1 := by omega
    subst hone
    have htwo : 2 ≤ targets 0 := hcond.resolve_left (by omega)
    refine idle.empty_of_waiting (p := 1) base steady.flow ?_
    rcases steady.room htwo hp with hw | hle | hle | hne | ⟨t, ht⟩
    · exact hw
    · rw [hcount 0] at hle
      omega
    · rw [hcount 1] at hle
      omega
    · exact absurd (hprimary (by omega)) hne
    · simp [idle.settled t] at ht

/-! ### Secondary jobs left behind -/

def Sys.retarget (v : Int) (s : Sys W T) : Sys W T := { s with th := s.th.retarget v }

/-- The step does not depend on the secondary target, and the scheduler is serving. -/
def ignores (s : Sys W T) : Label W T → Bool
  | .loop p =>
    match s.loop p with
    | .inside => Throttle.ignores s.th (.step (.inl p))
    | _ => true
  | .worker w => Throttle.ignores s.th (.step (.inr w))
  | l => serving l

omit [Fintype W] [DecidableEq W] in
theorem serving_of_ignores (h : ignores s l = true) : serving l = true := by
  cases l <;> first | rfl | exact h

theorem next_retarget (v : Int) (h : ignores s l = true) : (s.retarget v).next l = (s.next l).map (Sys.retarget v) := by
  have hloop : (s.retarget v).loop = s.loop := rfl
  have hdes : (s.retarget v).destructing = s.destructing := rfl
  have hth : (s.retarget v).th = s.th.retarget v := rfl
  cases l with
  | loop p =>
    simp only [Sys.next, Sys.turn, hloop, hdes, hth]
    cases hc : s.loop p with
    | test =>
      dsimp only
      split
      · rfl
      · rw [Throttle.next_retarget v rfl, Option.map_map, Option.map_map]
        rfl
    | inside =>
      have hstep : Throttle.ignores s.th (.step (.inl p)) = true := by simpa [ignores, hc] using h
      dsimp only
      rw [Throttle.next_retarget v hstep, Option.map_map, Option.map_map]
      rfl
    | process ret => rfl
    | exited => rfl
  | worker w =>
    simp only [Sys.next, hth]
    have hstep : Throttle.ignores s.th (.step (.inr w)) = true := h
    rw [Throttle.next_retarget v hstep, Option.map_map, Option.map_map]
    rfl
  | arrive job =>
    simp only [Sys.next, hth]
    rw [Throttle.next_retarget v rfl, Option.map_map, Option.map_map]
    rfl
  | complete t serial =>
    simp only [Sys.next, hth]
    show (if s.MayComplete t serial then _ else _) = _
    split
    · rw [Throttle.next_retarget v rfl, Option.map_map, Option.map_map]
      rfl
    · rfl
  | destruct => cases h
  | release => cases h

theorem init_retarget {v : Int} (hv : v ≠ 0) (hone : targets 1 ≠ 0) :
    (system W T (Function.update targets 1 v)).init = (system W T targets).init.retarget v := by
  have hne : (v != 0) = (targets 1 != 0) := by rw [bne_iff_ne.mpr hv, bne_iff_ne.mpr hone]
  have hblocks : (fun p => Function.update targets 1 v p != 0) = fun p => targets p != 0 := by
    funext p
    fin_cases p
    · rfl
    · simpa using hne
  have haccepts : Throttler.Accepts (Function.update targets 1 v) ∧ Throttler.Accepts targets := by
    simp [Throttler.Accepts, hv, hone]
  simp [system, Sys.retarget, Throttle.Sys.retarget, Throttle.start, Throttler.new, Throttler.setTarget, hne, hblocks,
    haccepts]

/-- An idle state with a secondary job in its list. -/
def strands (s : Sys Empty Nat) : Bool := decide (Idle s ∧ s.th.q.priorityQs 1 ≠ [])

/-- A run that does not look at the secondary target strands a secondary job whatever that target is. -/
theorem stranded_of_exec (a : Int) (ls : List (Label Empty Nat)) (hzero : targets 0 = a) (hone : targets 1 ≠ 0)
    (h : (((system Empty Nat ![a, 1]).restrict fun s l => ignores s l = true).exec ls).any strands = true) :
    ∃ xs s, (system Empty Nat targets).Run xs s ∧ Lts.Meets (fun _ l => serving l = true) xs ∧
      Idle s ∧ s.th.q.priorityQs 1 ≠ [] := by
  have htargets : Function.update ![a, 1] 1 (targets 1) = targets := by
    funext p
    fin_cases p
    · exact hzero.symm
    · rfl
  have hinit := @init_retarget Empty Nat _ _ ![a, 1] (targets 1) hone (by simp)
  rw [htargets] at hinit
  obtain ⟨s, hexec, hs⟩ := (Option.any_eq_true _ _).mp h
  obtain ⟨idle, hne⟩ := of_decide_eq_true hs
  obtain ⟨xs, run, hls⟩ := Lts.run_of_exec (Lts.exec_map hinit (fun s l => next_retarget (targets 1)) hexec)
  obtain ⟨ys, run', hls'⟩ := Lts.run_of_exec hexec
  refine ⟨xs, s.retarget (targets 1), run, fun x hx => ?_, ⟨idle.live, idle.settled, idle.blocked⟩, hne⟩
  -- Both runs take the same labels.
  have hmem : x.2 ∈ ys.map Prod.snd := by
    rw [hls', ← hls]
    exact List.mem_map_of_mem hx
  obtain ⟨y, hy, heq⟩ := List.mem_map.mp hmem
  rw [← heq]
  exact serving_of_ignores (run'.of_restrict.2 y hy)

/-- With primary target 0, a secondary job runs and completes: no decision gives the permission again, since
    nothing is below the primary target. -/
def primaryZero : List (Label Empty Nat) :=
  [.arrive ⟨0, 1, 0, 7⟩] ++ List.replicate 9 (.loop kSecondaryPriority) ++ [.complete (.inl kSecondaryPriority) 0] ++
    List.replicate 7 (.loop kSecondaryPriority) ++ [.loop kPrimaryPriority, .arrive ⟨1, 1, 0, 7⟩]

/-- With primary target 1, the first primary job sends the secondary thread away; its completion gives the
    primary permission back, and with it no other. -/
def primaryOne : List (Label Empty Nat) :=
  List.replicate 3 (.loop kSecondaryPriority) ++ [.arrive ⟨0, 0, 0, 7⟩] ++ List.replicate 9 (.loop kPrimaryPriority) ++
    List.replicate 8 (.loop kSecondaryPriority) ++ [.complete (.inl kPrimaryPriority) 0] ++
    List.replicate 8 (.loop kPrimaryPriority) ++ [.arrive ⟨1, 1, 0, 7⟩]

/-- Non-negative targets leave no job behind in an idle scheduler exactly when the secondary target is 0 or
    the primary one at least 2. -/
theorem idle_serves_iff {targets : Fin 2 → Int} (hnonneg : ∀ p, 0 ≤ targets p) :
    (∀ (W T : Type) [Fintype W] [DecidableEq W] (xs : List (Sys W T × Label W T)) (s : Sys W T),
      (system W T targets).Run xs s → Lts.Meets (fun _ l => serving l = true) xs → Idle s →
        ∀ p : Fin 2, 0 < targets p → s.th.q.priorityQs p = []) ↔
    targets 1 = 0 ∨ 2 ≤ targets 0 := by
  constructor
  · intro serves
    by_contra hcond
    push Not at hcond
    obtain ⟨hone, htwo⟩ := hcond
    have hpos : 0 < targets 1 := by have := hnonneg 1; omega
    have hsmall : targets 0 = 0 ∨ targets 0 = 1 := by have := hnonneg 0; omega
    have hstranded : ∃ xs s, (system Empty Nat targets).Run xs s ∧ Lts.Meets (fun _ l => serving l = true) xs ∧
        Idle s ∧ s.th.q.priorityQs 1 ≠ [] := by
      rcases hsmall with hzero | hzero
      · exact stranded_of_exec 0 primaryZero hzero hone (by decide)
      · exact stranded_of_exec 1 primaryOne hzero hone (by decide)
    obtain ⟨xs, s, run, hok, idle, hne⟩ := hstranded
    exact hne (serves Empty Nat xs s run hok idle 1 hpos)
  · intro hcond W T _ _ xs s run hok idle p hp
    exact idle_empty run hok hcond idle hp

/-- Targets 2 and 1: a secondary job has run and completed, and both threads wait for jobs. -/
theorem idle_serves_iff_two_one : ∃ xs s, (system Empty Nat ![2, 1]).Run xs s ∧
    Lts.Meets (fun _ l => serving l = true) xs ∧ s.th.nextSerial = 1 ∧ Idle s ∧ s.th.q.priorityQs 1 = [] := by
  obtain ⟨xs, s, run, -, hs⟩ := Lts.run_of_exec_any ((system Empty Nat ![2, 1]).restrict fun _ l => serving l = true)
    ([.arrive ⟨0, 1, 0, 7⟩] ++ List.replicate 9 (.loop 1) ++ [.complete (.inl 1) 0] ++ List.replicate 8 (.loop 1) ++
      [.loop 0, .loop 0]) (fun s => decide (s.th.nextSerial = 1 ∧ Idle s)) (by decide)
  obtain ⟨run, hok⟩ := run.of_restrict
  obtain ⟨hserial, idle⟩ := of_decide_eq_true hs
  have serves := (@idle_serves_iff ![2, 1] (by decide)).mpr (by decide)
  exact ⟨xs, s, run, hok, hserial, idle, serves Empty Nat xs s run hok idle 1 (by decide)⟩

/-- Targets 1 and 1: the scheduler is idle with a secondary job in the queue. -/
theorem idle_strands_secondary :
    ∃ xs s, (system Empty Nat ![1, 1]).Run xs s ∧ Lts.Meets (fun _ l => serving l = true) xs ∧ Idle s ∧
      s.th.q.priorityQs 1 ≠ [] :=
  stranded_of_exec 1 primaryOne rfl (by decide) (by decide)

end Dans.Proxy
