import Dans.Lib.KeyedList
import Dans.Theorems.ClientSteps

/-! Where the duplicates of a request are. Every step of the chain takes a duplicate from one place and puts it
    into another or drops it; only the dispatcher makes new ones, those of a fresh `PurgeState`. So no duplicate
    is ever in two places. -/

namespace Dans.Client
open Tally

variable {Tid D : Type} {cfg : Config}

/-! ### Places -/

/-- How often a thread holds a duplicate; the dispatcher holds those that it has not yet enqueued. -/
def Pc.holds (c : Pc D) (k : Duplicate) : Nat :=
  match c with
  | .dispatching d => if d.purgeState = k.1 ∧ d.prio ≤ k.2 ∧ k.2 ≤ d.maxPrio then 1 else 0
  | c => if c.job.any (·.key == k) then 1 else 0

theorem holds_of_job {c : Pc D} {j : StageJob D} (h : c.job = some j) (k : Duplicate) :
    c.holds k = if j.key == k then 1 else 0 := by
  cases c <;> simp_all [Pc.job, Pc.holds]

theorem Works.job {purged : Nat → Bool} {c c' : Pc D} (h : Works purged c c') :
    ∃ j j', c.job = some j ∧ c'.job = some j' ∧ j'.key = j.key ∧ j'.jobId = j.jobId := by
  cases h with
  | header data same _ => exact ⟨_, _, rfl, rfl, Prod.ext same rfl, rfl⟩
  | pass _ => exact ⟨_, _, rfl, rfl, StageJob.forward_key _ _, StageJob.forward_jobId _ _⟩
  | act _ | send | read _ | stop _ | complete _ | monitor => exact ⟨_, _, rfl, rfl, rfl, rfl⟩

theorem Registers.job {c : Pc D} {j : StageJob D} (h : Registers c j) : c.job = some j := by
  cases h <;> rfl

/-- A turn of the dispatcher gives up the duplicate that it enqueues. -/
theorem holds_duplicate {d : Dispatching D} {job : Job (ConnectDataInternal D)} (hdup : d.duplicate = some job)
    (hle : d.prio ≤ d.maxPrio) (k : Duplicate) : (Pc.dispatching d).holds k =
      (Pc.dispatching { d with i := d.i + 1, prio := d.prio + 1 }).holds k +
        if (StageJob.connect job).key == k then 1 else 0 := by
  obtain ⟨ip, -, rfl⟩ := Option.map_eq_some_iff.mp hdup
  obtain ⟨r, p⟩ := k
  simp only [Pc.holds, StageJob.key, StageJob.purgeState, StageJob.priority, beq_iff_eq, Prod.mk.injEq]
  by_cases hr : d.purgeState = r
  · by_cases hp : d.prio = p
    · subst hp
      have hlt : ¬d.prio + 1 ≤ d.prio := Nat.not_succ_le_self _
      simp [hr, hle, hlt]
    · have hiff : d.prio ≤ p ↔ d.prio + 1 ≤ p := ⟨fun h => Nat.lt_of_le_of_ne h hp, Nat.le_of_succ_le⟩
      simp [hr, hp, hiff]
  · simp [hr]

variable [Fintype Tid]

/-- How often the queues, the registered callbacks and the threads hold a duplicate. -/
def Chain.copies (cfg : Config) (c : Chain Tid D) (k : Duplicate) : Nat :=
  c.queued.count cfg.lists (·.key == k) + c.registered.countP (·.key == k) + tally (·.holds k) c.pc

variable [DecidableEq Tid] {c c' : Chain Tid D}

/-- Only the dispatcher makes new duplicates: those of a fresh `PurgeState`. -/
theorem Chain.Step.copies_le (h : c.Step cfg c') (k : Duplicate) :
    (c'.requests = c.requests ∧ c'.copies cfg k ≤ c.copies cfg k) ∨
    ∃ d : Dispatching D, d.purgeState = c.requests.length ∧ c'.requests = c.requests ++ [d.job.jobId] ∧
      c'.copies cfg k = c.copies cfg k + (Pc.dispatching d).holds k := by
  have move : ∀ t p, tally (·.holds k) (Function.update c.pc t p) + (c.pc t).holds k =
      tally (·.holds k) c.pc + p.holds k := fun t p => tally_update (·.holds k) c.pc t p
  have houtside : (Pc.outside : Pc D).holds k = 0 := rfl
  cases h with
  | stay => exact Or.inl ⟨rfl, le_rfl⟩
  | @dispatch t d pc fresh =>
    refine Or.inr ⟨d, fresh, rfl, ?_⟩
    have ht := move t (.dispatching d)
    rw [pc, houtside] at ht
    simp only [Chain.copies]
    omega
  | @duplicate t d job pc le dup list =>
    refine Or.inl ⟨rfl, ?_⟩
    have ht := move t (.dispatching { d with i := d.i + 1, prio := d.prio + 1 })
    rw [pc] at ht
    have hq := Fifo.count_push (f := c.queued) (x := .connect job) (d := fun j => j.key == k) list
    rw [holds_duplicate dup le] at ht
    simp only [Chain.copies]
    omega
  | @dispatched t d pc =>
    refine Or.inl ⟨rfl, ?_⟩
    have ht := move t .outside
    simp only [Chain.copies]
    omega
  | @take t stage prio j queued pc pops list =>
    refine Or.inl ⟨rfl, ?_⟩
    have ht := move t (.taken j)
    have hq := Fifo.count_pops (d := fun j => j.key == k) pops list
    rw [pc, houtside, holds_of_job (c := .taken j) rfl] at ht
    simp only [Chain.copies]
    omega
  | @work t p works =>
    refine Or.inl ⟨rfl, ?_⟩
    obtain ⟨j, j', hj, hj', hkey, -⟩ := works.job
    have ht := move t p
    rw [holds_of_job hj, holds_of_job hj', hkey] at ht
    simp only [Chain.copies]
    omega
  | @register t j registers =>
    refine Or.inl ⟨rfl, ?_⟩
    have ht := move t .outside
    rw [holds_of_job registers.job, houtside] at ht
    simp only [Chain.copies, List.countP_append, List.countP_singleton]
    omega
  | @fire t i j soc pc reg =>
    refine Or.inl ⟨rfl, ?_⟩
    have ht := move t (.called j soc)
    have hr := KeyedList.countP_eraseIdx reg (·.key == k)
    rw [pc, houtside, holds_of_job (c := .called j soc) rfl] at ht
    simp only [Chain.copies]
    omega
  | @lose i =>
    refine Or.inl ⟨rfl, ?_⟩
    have hr := (List.eraseIdx_sublist c.registered i).countP_le (p := (·.key == k))
    simp only [Chain.copies]
    omega
  | @drop t drops =>
    refine Or.inl ⟨rfl, ?_⟩
    have ht := move t .outside
    simp only [Chain.copies]
    omega
  | @win t job pc fresh =>
    refine Or.inl ⟨rfl, ?_⟩
    have ht := move t (.delivering job)
    rw [pc, holds_of_job (c := .completed job) rfl, holds_of_job (c := .delivering job) rfl] at ht
    simp only [Chain.copies]
    omega
  | @deliver t job pc =>
    refine Or.inl ⟨rfl, ?_⟩
    have ht := move t (.sweeping .connect job.jobId)
    have hsweep : (Pc.sweeping .connect job.jobId : Pc D).holds k = 0 := rfl
    simp only [Chain.copies]
    omega
  | @sweep t stage jobId p pc next =>
    refine Or.inl ⟨rfl, ?_⟩
    have ht := move t p
    have hp : p.holds k = 0 := by rcases next with rfl | ⟨stage', rfl⟩ <;> rfl
    have hq : (sweepStage c.queued stage jobId).count cfg.lists (·.key == k) ≤ c.queued.count cfg.lists (·.key == k) :=
      Fifo.count_le fun x _ => by
        unfold sweepStage
        split
        · exact List.filter_sublist
        · exact List.Sublist.refl _
    simp only [Chain.copies]
    omega
  | @pass t j pc list =>
    refine Or.inl ⟨rfl, ?_⟩
    have ht := move t .outside
    have hq := Fifo.count_push (f := c.queued) (x := j) (d := fun j => j.key == k) list
    rw [pc, houtside, holds_of_job (c := .passing j) rfl] at ht
    simp only [Chain.copies]
    omega

/-- Every duplicate of a request that was dispatched is in at most one place, and no other is anywhere. -/
def Unique (cfg : Config) (c : Chain Tid D) : Prop := ∀ k, c.copies cfg k ≤ if k.1 < c.requests.length then 1 else 0

theorem Unique.step (h : Unique cfg c) (hs : c.Step cfg c') : Unique cfg c' := by
  intro k
  have hk := h k
  rcases hs.copies_le k with ⟨hreq, hle⟩ | ⟨d, hfresh, hreq, hcopies⟩
  · rw [hreq]
    exact hle.trans hk
  · have hholds : (Pc.dispatching d).holds k ≤ if d.purgeState = k.1 then 1 else 0 := by
      simp only [Pc.holds]
      split <;> split <;> simp_all
    rw [hreq, hcopies, List.length_append, List.length_singleton]
    split at hk <;> split at hholds <;> split <;> omega

end Dans.Client
