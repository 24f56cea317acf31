import Dans.Lib.Ghost
import Dans.ThrottlerStats

/-! The statistics of the throttler are neither lost nor doubled. A ledger is kept beside a run: a call of `AddStat` is
    recorded when it takes the mutex of its priority, and a snapshot is taken when `Runner` takes the exclusive lock. The
    vectors then hold what is pending in the ledger, up to the call that is between its lock and its `push_back`s. -/

namespace Dans.ThrottlerStats
open MachineInt

/-! ### The ledger -/

/-- The calls since the first `clear`, at each priority, and how they are divided into snapshots and a rest. -/
structure Ledger where
  calls : Side → List Call
  snapshots : List (Side → List Call)
  pending : Side → List Call
  balanced : ∀ side, calls side = snapshots.flatMap (· side) ++ pending side

namespace Ledger

def empty : Ledger := ⟨fun _ => [], [], fun _ => [], fun _ => rfl⟩

def record (L : Ledger) (c : Call) : Ledger where
  calls := Function.update L.calls c.side (L.calls c.side ++ [c])
  snapshots := L.snapshots
  pending := Function.update L.pending c.side (L.pending c.side ++ [c])
  balanced side := by
    by_cases hside : side = c.side
    · subst hside
      simp [L.balanced]
    · rw [Function.update_of_ne hside, Function.update_of_ne hside, L.balanced]

def take (L : Ledger) : Ledger where
  calls := L.calls
  snapshots := L.snapshots ++ [L.pending]
  pending := fun _ => []
  balanced side := by simp [L.balanced]

end Ledger

variable {Tid : Type}

/-- What a step enters in the ledger. -/
def enter (L : Ledger) (s : Sys Tid) : Label Tid → Ledger
  | .step t =>
    match s.pc t with
    | .shared c => L.record c
    | _ => L
  | .runner =>
    match s.runner with
    | .clearing true [] => .empty
    | .waiting => L.take
    | _ => L
  | .addStat _ _ | .stop => L

def ledger (xs : List (Sys Tid × Label Tid)) : Ledger := Lts.history enter .empty xs

/-! ### Steps -/

variable [DecidableEq Tid] {s s' : Sys Tid} {t : Tid} {l : Label Tid} {L : Ledger}

/-- A step of a thread in or before `AddStat`. -/
inductive Write (s : Sys Tid) (t : Tid) : Label Tid → Sys Tid → Prop where
  | addStat {c : Call} (pc : s.pc t = .outside) : Write s t (.addStat t c) (s.goto t (.entering c))
  | share {c : Call} (pc : s.pc t = .entering c) (free : s.exclusive = false) :
      Write s t (.step t) { s.goto t (.shared c) with sharing := insert t s.sharing }
  | lock {c : Call} (pc : s.pc t = .shared c) (free : s.mutex c.side = none) :
      Write s t (.step t) { s.goto t (.locked c) with mutex := Function.update s.mutex c.side (some t) }
  | latency {c : Call} (pc : s.pc t = .locked c) :
      Write s t (.step t) { s.goto t (.pushed c) with vectors := s.append c .latencies }
  | size {c : Call} (pc : s.pc t = .pushed c) :
      Write s t (.step t) { s.goto t (.recorded c) with vectors := s.append c .sizes }
  | unlock {c : Call} (pc : s.pc t = .recorded c) :
      Write s t (.step t) { s.goto t .leaving with mutex := Function.update s.mutex c.side none }
  | leave (pc : s.pc t = .leaving) : Write s t (.step t) { s.goto t .outside with sharing := s.sharing.erase t }

/-- A step of `Runner`. -/
inductive Round (s : Sys Tid) : Sys Tid → Prop where
  | begin (point : s.runner = .starting) (free : s.sharing = ∅) :
      Round s { s with exclusive := true, runner := .clearing true clears }
  | clear {first : Bool} {side : Side} {field : Field} {left : List (Side × Field)}
      (point : s.runner = .clearing first ((side, field) :: left)) :
      Round s { s with vectors := s.vectors.set side field [], runner := .clearing first left }
  | cleared {first : Bool} (point : s.runner = .clearing first []) :
      Round s { s with exclusive := false, runner := if first then .testing else .calling }
  | test (point : s.runner = .testing) : Round s { s with runner := if s.joining then .returned else .sleeping }
  | wake (point : s.runner = .sleeping) : Round s { s with runner := .waiting }
  | take (point : s.runner = .waiting) (free : s.sharing = ∅) :
      Round s { s with exclusive := true, runner := .copying copies }
  | copy {side : Side} {field : Field} {left : List (Side × Field)} (point : s.runner = .copying ((side, field) :: left)) :
      Round s { s with stats := s.stats.set side field (s.vectors side field), runner := .copying left }
  | copied (point : s.runner = .copying []) : Round s { s with runner := .clearing false clears }
  | call (point : s.runner = .calling) :
      Round s { s with handed := s.handed ++ [s.stats], stats := fun _ _ => [], runner := .testing }

theorem lock_eq_some {r : Runner} (h : s.lock r = some s') :
    s.sharing = ∅ ∧ s' = { s with exclusive := true, runner := r } := by
  unfold Sys.lock at h
  split at h
  · next hfree =>
    cases h
    exact ⟨hfree.2, rfl⟩
  · cases h

theorem round_of_run (h : s.run = some s') : Round s s' := by
  unfold Sys.run at h
  split at h
  · next point =>
    obtain ⟨free, rfl⟩ := lock_eq_some h
    exact .begin point free
  · next point =>
    cases h
    exact .clear point
  · next point =>
    cases h
    exact .cleared point
  · next point =>
    cases h
    exact .test point
  · next point =>
    cases h
    exact .wake point
  · next point =>
    obtain ⟨free, rfl⟩ := lock_eq_some h
    exact .take point free
  · next point =>
    cases h
    exact .copy point
  · next point =>
    cases h
    exact .copied point
  · next point =>
    cases h
    exact .call point
  · cases h

theorem next_cases (h : s.next l = some s') :
    (∃ t, Write s t l s') ∨ (l = .runner ∧ Round s s') ∨ (l = .stop ∧ s' = { s with joining := true }) := by
  cases l with
  | addStat t c =>
    simp only [Sys.next] at h
    split at h
    · next hpc =>
      cases h
      exact .inl ⟨t, .addStat hpc⟩
    · cases h
  | step t =>
    simp only [Sys.next, Sys.step] at h
    cases hpc : s.pc t with
    | outside => simp [hpc] at h
    | entering c =>
      simp only [hpc] at h
      split at h
      · cases h
      · next hfree =>
        cases h
        exact .inl ⟨t, .share hpc (by simpa using hfree)⟩
    | shared c =>
      simp only [hpc] at h
      split at h
      · next hfree =>
        cases h
        exact .inl ⟨t, .lock hpc hfree⟩
      · cases h
    | locked c =>
      simp only [hpc] at h
      cases h
      exact .inl ⟨t, .latency hpc⟩
    | pushed c =>
      simp only [hpc] at h
      cases h
      exact .inl ⟨t, .size hpc⟩
    | recorded c =>
      simp only [hpc] at h
      cases h
      exact .inl ⟨t, .unlock hpc⟩
    | leaving =>
      simp only [hpc] at h
      cases h
      exact .inl ⟨t, .leave hpc⟩
  | runner => exact .inr (.inl ⟨rfl, round_of_run h⟩)
  | stop =>
    cases h
    exact .inr (.inr ⟨rfl, rfl⟩)

/-! ### Locks -/

/-- The mutex that a thread holds. -/
def Pc.holder : Pc → Option Side
  | locked c | pushed c | recorded c => some c.side
  | outside | entering _ | shared _ | leaving => none

/-- A thread holds the shared lock. -/
def Pc.shares : Pc → Bool
  | shared _ | locked _ | pushed _ | recorded _ | leaving => true
  | outside | entering _ => false

/-- `Runner` holds the exclusive lock. -/
def Runner.critical : Runner → Bool
  | clearing _ _ | copying _ => true
  | starting | testing | sleeping | waiting | calling | returned => false

/-- The locks are held by those who are at the points behind them, the exclusive one by nobody else. -/
structure Locks (s : Sys Tid) : Prop where
  mutex : ∀ side t, s.mutex side = some t ↔ (s.pc t).holder = some side
  sharing : ∀ t, t ∈ s.sharing ↔ (s.pc t).shares = true
  exclusive : s.exclusive = s.runner.critical
  apart : s.exclusive = true → s.sharing = ∅

omit [DecidableEq Tid] in
theorem Locks.mutex_ne (h : Locks s) (hpc : (s.pc t).holder = none) (side : Side) : s.mutex side ≠ some t := by
  intro hm
  rw [(h.mutex side t).mp hm] at hpc
  cases hpc

omit [DecidableEq Tid] in
theorem Locks.mutex_none (h : Locks s) (hempty : s.sharing = ∅) (side : Side) : s.mutex side = none := by
  cases hm : s.mutex side with
  | none => rfl
  | some t =>
    have hholder := (h.mutex side t).mp hm
    have hshares : t ∈ s.sharing := by
      rw [h.sharing]
      cases hpc : s.pc t <;> rw [hpc] at hholder <;> first | rfl | cases hholder
    rw [hempty] at hshares
    cases hshares

/-- A thread that keeps its mutex. -/
theorem Locks.mutex_goto (h : Locks s) {c : Pc} (hsame : c.holder = (s.pc t).holder) (side : Side) (u : Tid) :
    s.mutex side = some u ↔ (Function.update s.pc t c u).holder = some side := by
  rw [h.mutex side u]
  by_cases hu : u = t
  · subst hu
    rw [Function.update_self, hsame]
  · rw [Function.update_of_ne hu]

/-- A thread that keeps its shared lock. -/
theorem Locks.sharing_goto (h : Locks s) {c : Pc} (hsame : c.shares = (s.pc t).shares) (u : Tid) :
    u ∈ s.sharing ↔ (Function.update s.pc t c u).shares = true := by
  rw [h.sharing u]
  by_cases hu : u = t
  · subst hu
    rw [Function.update_self, hsame]
  · rw [Function.update_of_ne hu]

/-- A thread that takes or leaves the mutex `held`, which nobody else has. -/
theorem Locks.mutex_update (h : Locks s) {held : Side} {x : Option Tid} {c : Pc} (hfree : ∀ u, s.mutex held = some u → u = t)
    (hbefore : ∀ side, (s.pc t).holder = some side → side = held) (hx : ∀ u, x = some u → u = t)
    (hafter : c.holder = some held ↔ x = some t) (hother : ∀ side ≠ held, c.holder ≠ some side) (side : Side) (u : Tid) :
    Function.update s.mutex held x side = some u ↔ (Function.update s.pc t c u).holder = some side := by
  have hold := h.mutex side u
  by_cases hside : side = held
  · subst hside
    rw [Function.update_self]
    by_cases hu : u = t
    · subst hu
      rw [Function.update_self, hafter]
    · rw [Function.update_of_ne hu, ← hold]
      exact iff_of_false (fun hxu => hu (hx u hxu)) fun hm => hu (hfree u hm)
  · rw [Function.update_of_ne hside, hold]
    by_cases hu : u = t
    · subst hu
      rw [Function.update_self]
      exact iff_of_false (fun hb => hside (hbefore side hb)) (hother side hside)
    · rw [Function.update_of_ne hu]

/-- A thread that takes or leaves the shared lock. -/
theorem Locks.sharing_update (h : Locks s) {c : Pc} {sharing : Finset Tid} (hown : t ∈ sharing ↔ c.shares = true)
    (hother : ∀ u ≠ t, u ∈ sharing ↔ u ∈ s.sharing) (u : Tid) :
    u ∈ sharing ↔ (Function.update s.pc t c u).shares = true := by
  by_cases hu : u = t
  · subst hu
    rw [Function.update_self, hown]
  · rw [Function.update_of_ne hu, hother u hu, h.sharing u]

omit [DecidableEq Tid] in
/-- While `Runner` holds its lock, no thread has one. -/
theorem Locks.apart_of_shares (h : Locks s) (hpc : (s.pc t).shares = true) : s.exclusive = false := by
  cases hex : s.exclusive with
  | false => rfl
  | true =>
    have hmem := (h.sharing t).mpr hpc
    rw [h.apart hex] at hmem
    cases hmem

theorem Locks.write (h : Locks s) (hw : Write s t l s') : Locks s' := by
  cases hw with
  | addStat pc =>
    exact ⟨h.mutex_goto (by rw [pc]; rfl), h.sharing_goto (by rw [pc]; rfl), h.exclusive, h.apart⟩
  | share pc free =>
    refine ⟨h.mutex_goto (by rw [pc]; rfl), ?_, h.exclusive, fun hex => by cases free.symm.trans hex⟩
    exact h.sharing_update (by simp [Pc.shares]) fun u hu => by simp [hu]
  | @lock c pc free =>
    refine ⟨?_, h.sharing_goto (by rw [pc]; rfl), h.exclusive, h.apart⟩
    refine h.mutex_update ?_ ?_ (fun u hu => (Option.some.inj hu).symm) (by simp [Pc.holder]) ?_
    · intro u hu
      cases free.symm.trans hu
    · intro side hside
      rw [pc] at hside
      cases hside
    · exact fun side hne hside => hne (Option.some.inj hside).symm
  | latency pc =>
    exact ⟨h.mutex_goto (by rw [pc]; rfl), h.sharing_goto (by rw [pc]; rfl), h.exclusive, h.apart⟩
  | size pc =>
    exact ⟨h.mutex_goto (by rw [pc]; rfl), h.sharing_goto (by rw [pc]; rfl), h.exclusive, h.apart⟩
  | @unlock c pc =>
    have hholder : (s.pc t).holder = some c.side := by rw [pc, Pc.holder]
    refine ⟨?_, h.sharing_goto (by rw [pc]; rfl), h.exclusive, h.apart⟩
    refine h.mutex_update ?_ ?_ (fun u hu => by cases hu) (by simp [Pc.holder]) fun side _ hside => by cases hside
    · intro u hu
      exact Option.some.inj (hu.symm.trans ((h.mutex c.side t).mpr hholder))
    · intro side hside
      exact Option.some.inj (hside.symm.trans hholder)
  | leave pc =>
    refine ⟨h.mutex_goto (by rw [pc]; rfl), ?_, h.exclusive, ?_⟩
    · exact h.sharing_update (by simp [Pc.shares]) fun u hu => by simp [hu]
    · intro hex
      show s.sharing.erase t = ∅
      rw [h.apart hex, Finset.erase_empty]

omit [DecidableEq Tid] in
theorem Locks.round (h : Locks s) (hr : Round s s') : Locks s' := by
  have hexclusive := h.exclusive
  cases hr with
  | begin _ free | take _ free => exact ⟨h.mutex, h.sharing, rfl, fun _ => free⟩
  | clear point | copy point | copied point =>
    rw [point] at hexclusive
    exact ⟨h.mutex, h.sharing, hexclusive, h.apart⟩
  | @cleared first point => cases first <;> exact ⟨h.mutex, h.sharing, rfl, fun hex => by cases hex⟩
  | test point =>
    rw [point] at hexclusive
    refine ⟨h.mutex, h.sharing, ?_, h.apart⟩
    show s.exclusive = (if s.joining = true then Runner.returned else Runner.sleeping).critical
    rw [hexclusive]
    split <;> rfl
  | wake point | call point =>
    rw [point] at hexclusive
    exact ⟨h.mutex, h.sharing, hexclusive, h.apart⟩

/-! ### What the vectors hold -/

/-- The call that a thread behind its mutex has not appended yet. -/
def Pc.lag (field : Field) : Pc → List Call
  | locked c => [c]
  | pushed c =>
    match field with
    | .latencies => []
    | .sizes => [c]
  | outside | entering _ | shared _ | recorded _ | leaving => []

/-- The call of this priority that has its mutex and is not in the vector yet. -/
def Sys.lag (s : Sys Tid) (side : Side) (field : Field) : List Call :=
  match s.mutex side with
  | none => []
  | some t => (s.pc t).lag field

omit [DecidableEq Tid] in
theorem lag_of_none {side : Side} (h : s.mutex side = none) (field : Field) : s.lag side field = [] := by
  simp only [Sys.lag, h]

omit [DecidableEq Tid] in
theorem lag_of_some {side : Side} (h : s.mutex side = some t) (field : Field) : s.lag side field = (s.pc t).lag field := by
  simp only [Sys.lag, h]

/-- A step of a thread that does not hold the mutex of the priority. -/
theorem lag_goto {side : Side} {c : Pc} (hpc : s'.pc = Function.update s.pc t c) (hmutex : s'.mutex side = s.mutex side)
    (hne : s.mutex side ≠ some t) (field : Field) : s'.lag side field = s.lag side field := by
  cases hm : s.mutex side with
  | none => rw [lag_of_none hm, lag_of_none (hmutex.trans hm)]
  | some u =>
    have hu : u ≠ t := by
      rintro rfl
      exact hne hm
    rw [lag_of_some hm, lag_of_some (hmutex.trans hm), hpc, Function.update_of_ne hu]

/-- The vectors of these calls. -/
def values (calls : Side → List Call) : Vectors := fun side field => (calls side).map (·.value field)

/-- The vectors hold the pending calls, but for one that is not appended yet. -/
def Sys.Pending (s : Sys Tid) (pending : Side → List Call) : Prop :=
  ∀ side field, ∃ done, pending side = done ++ s.lag side field ∧ s.vectors side field = done.map (·.value field)

omit [DecidableEq Tid] in
/-- Where nobody has a mutex. -/
theorem pending_iff (hnone : ∀ side, s.mutex side = none) {pending : Side → List Call} :
    s.Pending pending ↔ s.vectors = values pending := by
  constructor
  · intro h
    funext side field
    obtain ⟨done, hdone, hvec⟩ := h side field
    rw [lag_of_none (hnone side), List.append_nil] at hdone
    rw [hvec, values, hdone]
  · intro h side field
    exact ⟨pending side, by rw [lag_of_none (hnone side), List.append_nil], by rw [h, values]⟩

/-- A step that changes neither vectors nor mutexes, of a thread without one. -/
theorem Pending.goto {pending : Side → List Call} (h : s.Pending pending) (hlocks : Locks s) {c : Pc}
    (hholder : (s.pc t).holder = none) (hpc : s'.pc = Function.update s.pc t c) (hmutex : s'.mutex = s.mutex)
    (hvec : s'.vectors = s.vectors) : s'.Pending pending := by
  intro side field
  rw [lag_goto hpc (congrFun hmutex side) (hlocks.mutex_ne hholder side), hvec]
  exact h side field

omit [DecidableEq Tid] in
theorem append_eq (s : Sys Tid) (c : Call) (field field' : Field) :
    s.append c field c.side field' = s.vectors c.side field' ++ if field' = field then [c.value field] else [] := by
  unfold Sys.append Vectors.set
  by_cases hfield : field' = field
  · subst hfield
    simp
  · simp [hfield]

omit [DecidableEq Tid] in
theorem append_of_ne {side : Side} {c : Call} (h : side ≠ c.side) (field field' : Field) :
    s.append c field side field' = s.vectors side field' := by
  simp [Sys.append, Vectors.set, h]

/-- A step of the thread that holds the mutex of `side`: what it appends to a vector is no longer missing there. -/
theorem Pending.advance {pending : Side → List Call} (h : s.Pending pending) (hlocks : Locks s) {side : Side} {c : Pc}
    (hholder : (s.pc t).holder = some side) (hpc : s'.pc = Function.update s.pc t c)
    (hother : ∀ side' ≠ side, s'.mutex side' = s.mutex side' ∧ s'.vectors side' = s.vectors side')
    (hown : ∀ field, ∃ new, (s.pc t).lag field = new ++ s'.lag side field ∧
      s'.vectors side field = s.vectors side field ++ new.map (·.value field)) : s'.Pending pending := by
  intro side' field
  obtain ⟨done, hdone, hvec⟩ := h side' field
  by_cases hside : side' = side
  · subst hside
    obtain ⟨new, hlag, happend⟩ := hown field
    rw [lag_of_some ((hlocks.mutex side' t).mpr hholder), hlag] at hdone
    exact ⟨done ++ new, by rw [hdone, List.append_assoc], by rw [happend, hvec, List.map_append]⟩
  · obtain ⟨hmutex, hvectors⟩ := hother side' hside
    have hne : s.mutex side' ≠ some t := by
      intro hm
      rw [(hlocks.mutex side' t).mp hm] at hholder
      exact hside (Option.some.inj hholder)
    rw [lag_goto hpc hmutex hne, hvectors]
    exact ⟨done, hdone, hvec⟩

theorem Pending.push {pending : Side → List Call} (h : s.Pending pending) (hlocks : Locks s) {c : Call} {c' : Pc}
    {field : Field} (hholder : (s.pc t).holder = some c.side)
    (hlag : ∀ field', (s.pc t).lag field' = (if field' = field then [c] else []) ++ c'.lag field') :
    Sys.Pending { s.goto t c' with vectors := s.append c field } pending := by
  have hmutex := (hlocks.mutex c.side t).mpr hholder
  refine Pending.advance h hlocks hholder rfl (fun side' hside => ⟨rfl, funext (append_of_ne hside field)⟩) ?_
  intro field'
  have hown : Sys.lag { s.goto t c' with vectors := s.append c field } c.side field' = c'.lag field' := by
    simp [Sys.lag, Sys.goto, hmutex]
  refine ⟨_, by rw [hown]; exact hlag field', ?_⟩
  refine (append_eq s c field field').trans ?_
  by_cases hfield : field' = field
  · subst hfield
    simp
  · simp [hfield]

theorem Pending.write (h : s.Pending L.pending) (hlocks : Locks s) (hw : Write s t l s') :
    s'.Pending (enter L s l).pending := by
  cases hw with
  | addStat pc => exact Pending.goto h hlocks (by rw [pc]; rfl) rfl rfl rfl
  | share pc free =>
    simp only [enter, pc]
    exact Pending.goto h hlocks (by rw [pc]; rfl) rfl rfl rfl
  | leave pc =>
    simp only [enter, pc]
    exact Pending.goto h hlocks (by rw [pc]; rfl) rfl rfl rfl
  | @lock c pc free =>
    simp only [enter, pc]
    intro side field
    obtain ⟨done, hdone, hvec⟩ := h side field
    by_cases hside : side = c.side
    · subst hside
      rw [lag_of_none free, List.append_nil] at hdone
      refine ⟨done, ?_, hvec⟩
      rw [lag_of_some (Function.update_self _ _ _)]
      simp [Ledger.record, hdone, Sys.goto, Pc.lag]
    · refine ⟨done, ?_, hvec⟩
      rw [lag_goto rfl (Function.update_of_ne hside _ _) (hlocks.mutex_ne (by rw [pc]; rfl) side)]
      simp [Ledger.record, hside, hdone]
  | latency pc =>
    simp only [enter, pc]
    refine Pending.push h hlocks (by rw [pc, Pc.holder]) ?_
    intro field
    rw [pc]
    cases field <;> rfl
  | size pc =>
    simp only [enter, pc]
    refine Pending.push h hlocks (by rw [pc, Pc.holder]) ?_
    intro field
    rw [pc]
    cases field <;> rfl
  | @unlock c pc =>
    simp only [enter, pc]
    have hholder : (s.pc t).holder = some c.side := by rw [pc, Pc.holder]
    refine Pending.advance h hlocks hholder rfl ?_ ?_
    · exact fun side' hside => ⟨Function.update_of_ne hside _ _, rfl⟩
    · intro field
      rw [lag_of_none (Function.update_self _ _ _), pc]
      exact ⟨[], rfl, by simp [Sys.goto]⟩

/-! ### The rounds -/

theorem mem_clears (side : Side) (field : Field) : (side, field) ∈ clears := by cases side <;> cases field <;> decide

theorem mem_copies (side : Side) (field : Field) : (side, field) ∈ copies := by cases side <;> cases field <;> decide

/-- The snapshot `B` is taken and not handed over: it is the last of the ledger, and those before it are handed. -/
def Sys.Taken (s : Sys Tid) (L : Ledger) (B : Side → List Call) : Prop :=
  ∃ Bs, L.snapshots = Bs ++ [B] ∧ s.handed = Bs.map values

/-- How vectors, `stats` and the `Stats` handed over stand to the ledger, at each point of `Runner`. -/
def Sys.Accounts (s : Sys Tid) (L : Ledger) : Prop :=
  match s.runner with
  | .starting => s.handed = []
  | .clearing true left => s.handed = [] ∧ ∀ side field, (side, field) ∉ left → s.vectors side field = []
  | .testing | .sleeping | .waiting | .returned => s.handed = L.snapshots.map values ∧ s.Pending L.pending
  | .copying left => ∃ B, s.Taken L B ∧ (L.pending = fun _ => []) ∧ s.vectors = values B ∧
      ∀ side field, (side, field) ∉ left → s.stats side field = values B side field
  | .clearing false left => left.Nodup ∧ ∃ B, s.Taken L B ∧ (L.pending = fun _ => []) ∧ s.stats = values B ∧
      ∀ side field, s.vectors side field = if (side, field) ∈ left then values B side field else []
  | .calling => ∃ B, s.Taken L B ∧ s.stats = values B ∧ s.Pending L.pending

theorem Write.frame (hw : Write s t l s') :
    s'.runner = s.runner ∧ s'.stats = s.stats ∧ s'.handed = s.handed := by
  cases hw <;> exact ⟨rfl, rfl, rfl⟩

theorem enter_snapshots (hw : Write s t l s') : (enter L s l).snapshots = L.snapshots := by
  cases hw with
  | addStat pc => rfl
  | share pc _ | lock pc _ | latency pc | size pc | unlock pc | leave pc =>
    simp only [enter, pc]
    try rfl

/-- While `Runner` has its lock, a thread can do no more than call `AddStat`. -/
theorem Write.critical (hw : Write s t l s') (hlocks : Locks s) (hex : s.exclusive = true) :
    s'.vectors = s.vectors ∧ enter L s l = L := by
  have hout : (s.pc t).shares = false := by
    cases hshares : (s.pc t).shares with
    | false => rfl
    | true => cases (hlocks.apart_of_shares hshares).symm.trans hex
  cases hw with
  | addStat pc => exact ⟨rfl, rfl⟩
  | share pc free => cases free.symm.trans hex
  | lock pc _ | latency pc | size pc | unlock pc | leave pc =>
    rw [pc] at hout
    cases hout

theorem Accounts.write (h : s.Accounts L) (hlocks : Locks s) (hw : Write s t l s') : s'.Accounts (enter L s l) := by
  obtain ⟨hrunner, hstats, hhanded⟩ := hw.frame
  have hsnapshots : (enter L s l).snapshots = L.snapshots := enter_snapshots hw
  have hexclusive := hlocks.exclusive
  unfold Sys.Accounts Sys.Taken at h ⊢
  rw [hrunner, hstats, hhanded, hsnapshots]
  cases hr : s.runner with
  | starting =>
    simp only [hr] at h ⊢
    exact h
  | testing | sleeping | waiting | returned =>
    simp only [hr] at h ⊢
    exact ⟨h.1, Pending.write h.2 hlocks hw⟩
  | calling =>
    simp only [hr] at h ⊢
    obtain ⟨B, htaken, hB, hpending⟩ := h
    exact ⟨B, htaken, hB, Pending.write hpending hlocks hw⟩
  | copying left =>
    rw [hr] at hexclusive
    obtain ⟨hvec, hledger⟩ := hw.critical (L := L) hlocks hexclusive
    simp only [hr] at h ⊢
    rw [hvec, hledger]
    exact h
  | clearing first left =>
    rw [hr] at hexclusive
    obtain ⟨hvec, hledger⟩ := hw.critical (L := L) hlocks hexclusive
    rw [hvec, hledger]
    cases first <;> simp only [hr] at h ⊢ <;> exact h

theorem set_eq (vs : Vectors) (side side' : Side) (field field' : Field) (xs : List Int) :
    vs.set side field xs side' field' = if (side', field') = (side, field) then xs else vs side' field' := by
  simp only [Vectors.set, Prod.mk.injEq]

omit [DecidableEq Tid] in
/-- A `clear`, in the first section or in a round. -/
theorem Accounts.clear (h : s.Accounts L) {first : Bool} {side : Side} {field : Field} {left : List (Side × Field)}
    (point : s.runner = .clearing first ((side, field) :: left)) :
    Sys.Accounts { s with vectors := s.vectors.set side field [], runner := .clearing first left } (enter L s .runner) := by
  unfold Sys.Accounts at h
  cases first with
  | true =>
    simp only [point] at h
    refine ⟨h.1, ?_⟩
    intro side' field' hnot
    refine (set_eq _ _ _ _ _ _).trans ?_
    split
    · rfl
    · next hne => exact h.2 side' field' (List.not_mem_cons_of_ne_of_not_mem hne hnot)
  | false =>
    simp only [point] at h
    simp only [enter, point, Sys.Accounts]
    obtain ⟨hnodup, B, htaken, hpending, hstats, hvec⟩ := h
    obtain ⟨hnot, hnodup⟩ := List.nodup_cons.mp hnodup
    refine ⟨hnodup, B, htaken, hpending, hstats, ?_⟩
    intro side' field'
    rw [set_eq]
    split
    · next heq => rw [heq, if_neg hnot]
    · next hne =>
      rw [hvec side' field']
      simp only [List.mem_cons, hne, false_or]

omit [DecidableEq Tid] in
/-- The end of a section: the ledger starts anew behind the first one. -/
theorem Accounts.cleared (h : s.Accounts L) (hlocks : Locks s) {first : Bool} (point : s.runner = .clearing first []) :
    Sys.Accounts { s with exclusive := false, runner := if first then .testing else .calling } (enter L s .runner) := by
  unfold Sys.Accounts at h
  have hexclusive := hlocks.exclusive
  rw [point] at hexclusive
  have hnone := hlocks.mutex_none (hlocks.apart hexclusive)
  cases first with
  | true =>
    simp only [point] at h
    simp only [enter, point, Sys.Accounts, if_true]
    refine ⟨h.1, (pending_iff hnone).mpr ?_⟩
    funext side field
    exact h.2 side field List.not_mem_nil
  | false =>
    simp only [point] at h
    simp only [enter, point, Sys.Accounts]
    obtain ⟨-, B, htaken, hpending, hstats, hvec⟩ := h
    refine ⟨B, htaken, hstats, (pending_iff hnone).mpr ?_⟩
    funext side field
    rw [hpending]
    exact hvec side field

omit [DecidableEq Tid] in
theorem Accounts.round (h : s.Accounts L) (hlocks : Locks s) (hr : Round s s') : s'.Accounts (enter L s .runner) := by
  cases hr with
  | begin point free =>
    simp only [Sys.Accounts, point] at h
    exact ⟨h, fun side field hnot => absurd (mem_clears side field) hnot⟩
  | clear point => exact Accounts.clear h point
  | cleared point => exact Accounts.cleared h hlocks point
  | test point =>
    simp only [Sys.Accounts, point] at h
    simp only [enter, point, Sys.Accounts]
    cases s.joining <;> exact h
  | wake point =>
    simp only [Sys.Accounts, point] at h
    simp only [enter, point, Sys.Accounts]
    exact h
  | take point free =>
    simp only [Sys.Accounts, point] at h
    simp only [enter, point, Sys.Accounts]
    obtain ⟨hhanded, hpending⟩ := h
    refine ⟨L.pending, ⟨L.snapshots, rfl, hhanded⟩, rfl, (pending_iff (hlocks.mutex_none free)).mp hpending, ?_⟩
    exact fun side field hnot => absurd (mem_copies side field) hnot
  | @copy side field left point =>
    simp only [Sys.Accounts, point] at h
    simp only [enter, point, Sys.Accounts]
    obtain ⟨B, htaken, hpending, hvec, hstats⟩ := h
    refine ⟨B, htaken, hpending, hvec, ?_⟩
    intro side' field' hnot
    rw [set_eq]
    split
    · next heq =>
      cases heq
      rw [hvec]
    · next hne => exact hstats side' field' (List.not_mem_cons_of_ne_of_not_mem hne hnot)
  | copied point =>
    simp only [Sys.Accounts, point] at h
    simp only [enter, point, Sys.Accounts]
    obtain ⟨B, htaken, hpending, hvec, hstats⟩ := h
    refine ⟨by decide, B, htaken, hpending, funext fun side => funext fun field => hstats side field List.not_mem_nil, ?_⟩
    intro side field
    rw [if_pos (mem_clears side field), hvec]
  | call point =>
    simp only [Sys.Accounts, point] at h
    simp only [enter, point, Sys.Accounts]
    obtain ⟨B, ⟨Bs, hsnapshots, hhanded⟩, hstats, hpending⟩ := h
    refine ⟨?_, hpending⟩
    rw [hsnapshots, hhanded, hstats, List.map_append]
    rfl

variable {xs : List (Sys Tid × Label Tid)}

theorem accounts_of_run (run : (system Tid).Run xs s) : Locks s ∧ s.Accounts (ledger xs) := by
  have hok : Lts.MeetsAfter enter .empty (fun _ _ _ => True) xs := fun _ _ _ _ _ => trivial
  refine run.invariant_after (P := fun L s => Locks s ∧ s.Accounts L) hok ⟨⟨?_, ?_, rfl, ?_⟩, rfl⟩ ?_
  · simp [system, Pc.holder]
  · simp [system, Pc.shares]
  · exact fun hex => by cases hex
  · rintro xs L s l s' - ⟨hlocks, haccounts⟩ - next
    rcases next_cases next with ⟨t, hw⟩ | ⟨rfl, hr⟩ | ⟨rfl, rfl⟩
    · exact ⟨hlocks.write hw, Accounts.write haccounts hlocks hw⟩
    · exact ⟨hlocks.round hr, Accounts.round haccounts hlocks hr⟩
    · exact ⟨⟨hlocks.mutex, hlocks.sharing, hlocks.exclusive, hlocks.apart⟩, haccounts⟩

/-! ### Conservation -/

/-- `Runner` has done its first `clear`s. -/
def Runner.cleared : Runner → Bool
  | starting | clearing true _ => false
  | clearing false _ | testing | sleeping | waiting | copying _ | calling | returned => true

/-- `Runner` is between the call of `cb` and its next lock, or has returned. -/
def Runner.resting : Runner → Bool
  | testing | sleeping | waiting | returned => true
  | starting | clearing _ _ | copying _ | calling => false

/-- What is in `stats` and no longer in the vector, and was not handed over. -/
def Sys.hand (s : Sys Tid) (side : Side) (field : Field) : List Int :=
  match s.runner with
  | .calling => s.stats side field
  | .clearing false left => if (side, field) ∈ left then [] else s.stats side field
  | _ => []

theorem flatMap_values (Bs : List (Side → List Call)) (side : Side) (field : Field) :
    (Bs.map values).flatMap (· side field) = (Bs.flatMap (· side)).map (·.value field) := by
  simp only [List.flatMap_map, List.map_flatMap, values]

omit [DecidableEq Tid] in
/-- The calls behind the `Stats` that were handed over. -/
theorem Accounts.batches (h : s.Accounts L) (hcleared : s.runner.cleared = true) :
    ∃ Bs rest, L.snapshots = Bs ++ rest ∧ s.handed = Bs.map values := by
  unfold Sys.Accounts at h
  cases hr : s.runner with
  | starting => rw [hr] at hcleared; cases hcleared
  | testing | sleeping | waiting | returned =>
    simp only [hr] at h
    exact ⟨L.snapshots, [], by simp, h.1⟩
  | copying left | calling =>
    simp only [hr] at h
    obtain ⟨B, ⟨Bs, hsnapshots, hhanded⟩, -⟩ := h
    exact ⟨Bs, [B], hsnapshots, hhanded⟩
  | clearing first left =>
    cases first with
    | true => rw [hr] at hcleared; cases hcleared
    | false =>
      simp only [hr] at h
      obtain ⟨-, B, ⟨Bs, hsnapshots, hhanded⟩, -⟩ := h
      exact ⟨Bs, [B], hsnapshots, hhanded⟩

omit [DecidableEq Tid] in
/-- What was handed over, what `Runner` has in its hand, the vector and the call that is not appended yet. -/
theorem Accounts.balance (h : s.Accounts L) (hlocks : Locks s) (hcleared : s.runner.cleared = true) (side : Side)
    (field : Field) : s.handed.flatMap (· side field) ++ s.hand side field ++ s.vectors side field ++
      (s.lag side field).map (·.value field) = (L.calls side).map (·.value field) := by
  have hexclusive := hlocks.exclusive
  unfold Sys.Accounts at h
  rw [L.balanced side]
  cases hr : s.runner with
  | starting => rw [hr] at hcleared; cases hcleared
  | testing | sleeping | waiting | returned =>
    simp only [hr] at h
    obtain ⟨done, hpending, hvec⟩ := h.2 side field
    simp [Sys.hand, hr, h.1, flatMap_values, hpending, hvec]
  | calling =>
    simp only [hr] at h
    obtain ⟨B, ⟨Bs, hsnapshots, hhanded⟩, hstats, hpending⟩ := h
    obtain ⟨done, hpending, hvec⟩ := hpending side field
    simp [Sys.hand, hr, hhanded, flatMap_values, hsnapshots, hstats, values, hpending, hvec]
  | copying left =>
    rw [hr] at hexclusive
    have hnone := hlocks.mutex_none (hlocks.apart hexclusive) side
    simp only [hr] at h
    obtain ⟨B, ⟨Bs, hsnapshots, hhanded⟩, hpending, hvec, -⟩ := h
    simp [Sys.hand, hr, hhanded, flatMap_values, hsnapshots, hpending, hvec, values, lag_of_none hnone]
  | clearing first left =>
    cases first with
    | true => rw [hr] at hcleared; cases hcleared
    | false =>
      rw [hr] at hexclusive
      have hnone := hlocks.mutex_none (hlocks.apart hexclusive) side
      simp only [hr] at h
      obtain ⟨-, B, ⟨Bs, hsnapshots, hhanded⟩, hpending, hstats, hvec⟩ := h
      by_cases hleft : (side, field) ∈ left
      · simp [Sys.hand, hr, hleft, hhanded, flatMap_values, hsnapshots, hpending, hvec, values, lag_of_none hnone]
      · simp [Sys.hand, hr, hleft, hhanded, flatMap_values, hsnapshots, hpending, hstats, hvec, values, lag_of_none hnone]

/-- After the first `clear`s, the vectors of all snapshots handed over, followed by what `Runner` has in its hand, the
    pending vector and the call that is not appended yet, are the calls of `AddStat` in the order of their locks; between
    rounds and calls nothing is in a hand. The latencies and the sizes of a snapshot are those of the same calls. -/
theorem stats_conserved (run : (system Tid).Run xs s) (hcleared : s.runner.cleared = true) (side : Side) :
    (∀ field, s.handed.flatMap (· side field) ++ s.hand side field ++ s.vectors side field ++
      (s.lag side field).map (·.value field) = ((ledger xs).calls side).map (·.value field)) ∧
    (s.mutex side = none → s.runner.resting = true → ∀ field,
      s.handed.flatMap (· side field) ++ s.vectors side field = ((ledger xs).calls side).map (·.value field)) ∧
    (∃ batches : List (List Call), batches.flatten <+: (ledger xs).calls side ∧
      ∀ field, s.handed.map (· side field) = batches.map (List.map (·.value field))) ∧
    ∀ v ∈ s.handed, (v side .latencies).length = (v side .sizes).length := by
  obtain ⟨hlocks, haccounts⟩ := accounts_of_run run
  obtain ⟨Bs, rest, hsnapshots, hhanded⟩ := Accounts.batches haccounts hcleared
  have hbalance := Accounts.balance haccounts hlocks hcleared side
  refine ⟨hbalance, ?_, ⟨Bs.map (· side), ?_, ?_⟩, ?_⟩
  · intro hnone hresting field
    have hhand : s.hand side field = [] := by
      unfold Sys.hand
      cases hr : s.runner <;> rw [hr] at hresting <;> first | rfl | cases hresting
    have hfield := hbalance field
    rwa [hhand, lag_of_none hnone, List.append_nil, List.map_nil, List.append_nil] at hfield
  · rw [(ledger xs).balanced side, hsnapshots, List.flatMap_append, List.append_assoc, List.flatMap_def]
    exact List.prefix_append _ _
  · intro field
    rw [hhanded, List.map_map, List.map_map]
    rfl
  · rw [hhanded]
    intro v hv
    obtain ⟨B, -, rfl⟩ := List.mem_map.mp hv
    simp [values]

/-- A round, with one call of `AddStat` before it and one that has appended its latency behind it. -/
def round : List (Label Bool) :=
  List.replicate 7 .runner ++ [.addStat true ⟨0, 100, 5⟩] ++ List.replicate 6 (.step true) ++ List.replicate 13 .runner ++
    [.addStat false ⟨0, 2 ^ 32 - 1, 6⟩] ++ List.replicate 3 (.step false)

theorem stats_conserved_round : ∃ (xs : List (Sys Bool × Label Bool)) (s : Sys Bool), (system Bool).Run xs s ∧
    s.runner.cleared = true ∧ s.handed.map (· .primary .sizes) = [[100]] ∧
    s.handed.flatMap (· .primary .latencies) ++ s.vectors .primary .latencies = [5, 6] ∧
    ((ledger xs).calls .primary).map (·.value .latencies) = [5, 6] := by
  obtain ⟨xs, s, run, -, hs⟩ := Lts.run_of_exec_any (system Bool) round
    (fun s => s.runner.cleared && decide (s.handed.map (· .primary .sizes) = [[100]] ∧
      s.handed.flatMap (· .primary .latencies) ++ s.vectors .primary .latencies = [5, 6] ∧
      s.hand .primary .latencies = [] ∧ s.lag .primary .latencies = [])) (by decide)
  simp only [Bool.and_eq_true, decide_eq_true_eq] at hs
  obtain ⟨hcleared, hsizes, hlatencies, hhand, hlag⟩ := hs
  have hall := (stats_conserved run hcleared .primary).1 .latencies
  rw [hhand, hlag, List.append_nil, hlatencies, List.map_nil, List.append_nil] at hall
  exact ⟨xs, s, run, hcleared, hsizes, hlatencies, hall.symm⟩

end Dans.ThrottlerStats
