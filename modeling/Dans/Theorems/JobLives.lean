import Dans.Theorems.Lifetimes

/-! The lives of the jobs. A step comes to a job only from where somebody had it before, so that nobody comes to a job that
    was not accepted yet or that was destroyed. -/

namespace Dans.ProxyJobs
open Tally

variable {S W : Type}

/-- Somebody has the job, or can come to it. -/
def Sys.Reaches (s : Sys S W) (j : Nat) : Prop :=
  j ∈ s.queue ∨ (∃ t, (s.sched t).job = some j) ∨
    (∃ cb, s.Held cb ∧ s.freed cb.id = false ∧ cb.closure.holds = some j) ∨ (∃ task ∈ s.tasks, task.job = j) ∨
    ∃ w, (s.work w).job = some j

section Steps
variable {s s' : Sys S W} {l : Label S W} {cb : Callback} {j id : Nat}

theorem Sched.Acts.job {n : Nat} {r : PipeJob} {c : Sched} {a : Act Sched} (h : c.Acts n r a) (hj : a.next.job = some j) :
    c.job = some j := by
  cases h with
  | test next =>
    rcases next with rfl | rfl
    · exact hj
    · cases hj
  | clear => cases hj
  | monitor | assign | delete => exact hj

theorem Work.Acts.job {r : PipeJob} {c : Work} {a : Act Work} (h : c.Acts r a) (hj : a.next.job = some j) :
    c.job = some j := by
  cases h with
  | connect next | monitor next =>
    rcases next with rfl | rfl
    · exact hj
    · exact hj
  | test next | cliClosed next =>
    rcases next with rfl | rfl
    · exact hj
    · cases hj
  | clear | leave | alone _ | shutdown => cases hj
  | monitorIn | monitorOut | delete | report | add | rearm | setShutdown _ => exact hj

theorem Work.piped_job {j' : Nat} {side : Side} {soc ret : Int} (h : (Work.piped j' side soc ret).job = some j) :
    j' = j := by
  rcases Work.piped_cases j' side soc ret with heq | heq | ⟨units, heq⟩ <;> rw [heq] at h <;> cases h <;> rfl

variable [Fintype S] [Fintype W] [DecidableEq S] [DecidableEq W]

theorem Step.freed_mono (hs : Step s l s') (h : s.freed id = true) : s'.freed id = true := by
  have hdelete : ∀ id? : Option Nat, (id?.elim s.freed fun id => Function.update s.freed id true) id = true := by
    intro id?
    cases id? with
    | none => exact h
    | some id' =>
      rw [Option.elim_some, Function.update_apply]
      split
      · rfl
      · exact h
  cases hs with
  | @finish cb _ _ => exact hdelete (some cb.id)
  | schedule _ _ _ | work _ _ _ => exact hdelete _
  | _ => exact h

/-- A callback is made by a thread that has its job. -/
theorem Step.made (hs : Step s l s') {c : Closure} (heap : s'.heap = s.heap ++ [c]) (hj : c.holds = some j) :
    (∃ t, (s.sched t).job = some j) ∨ ∃ w, (s.work w).job = some j := by
  cases hs with
  | serve _ _ _ | accept _ =>
    cases List.append_cancel_left heap
    cases hj
  | @connect t j' soc sched =>
    cases List.append_cancel_left heap
    cases hj
    exact Or.inl ⟨t, by rw [sched]; rfl⟩
  | @schedule t j' a job acts _ =>
    generalize hc : s.sched t = c' at job acts
    cases acts with
    | monitor =>
      cases List.append_cancel_left heap
      cases hj
      exact Or.inl ⟨t, by rw [hc]; rfl⟩
    | assign | test _ | delete | clear => simp [Sys.perform] at heap
  | @work w j' a job acts _ =>
    generalize hc : s.work w = c' at job acts
    cases acts with
    | monitorIn | monitorOut | rearm =>
      cases List.append_cancel_left heap
      cases hj
      exact Or.inr ⟨w, by rw [hc]; rfl⟩
    | _ => simp [Sys.perform] at heap
  | _ => exact absurd (show s.heap = s.heap ++ [c] from heap) (by simp)

theorem Step.task_job (hs : Step s l s') {task : Task} (h : task ∈ s'.tasks) : s.Reaches task.job := by
  have hold : ∀ {task}, task ∈ s.tasks → s.Reaches task.job := fun h => Or.inr (Or.inr (Or.inr (Or.inl ⟨_, h, rfl⟩)))
  have hbatch : ∀ {id j' : Nat} {c : Closure} {rest : List Callback}, s.batch = ⟨id, c⟩ :: rest → s.freed id = false →
      c.holds = some j' → s.Reaches j' := by
    intro id j' c rest batch live hc
    exact Or.inr (Or.inr (Or.inl ⟨⟨id, c⟩, Or.inr (Or.inl (batch ▸ List.mem_cons_self)), live, hc⟩))
  cases hs with
  | cliClosed _ batch live | connected _ batch live | monitored _ batch live =>
    rcases List.mem_append.mp h with h | h
    · exact hold h
    · rw [List.mem_singleton.mp h]
      exact hbatch batch live rfl
  | @connectNow t j' soc sched =>
    rcases List.mem_append.mp h with h | h
    · exact hold h
    · rw [List.mem_singleton.mp h]
      exact Or.inr (Or.inl ⟨t, by rw [sched]; rfl⟩)
  | start _ tasks => exact hold (tasks ▸ List.mem_cons_of_mem _ h)
  | schedule _ acts _ =>
    refine hold ?_
    simpa [Sys.perform, acts.submit] using h
  | work _ acts _ =>
    refine hold ?_
    simpa [Sys.perform, acts.submit] using h
  | _ => exact hold h

theorem Step.sched_job (hs : Step s l s') {t : S} (h : (s'.sched t).job = some j) : s.Reaches j := by
  have hkeep : ∀ {t' : S} {c : Sched}, (c.job = some j → s.Reaches j) → (Function.update s.sched t' c t).job = some j →
      s.Reaches j := by
    intro t' c hc h
    rw [Function.update_apply] at h
    split at h
    · exact hc h
    · exact Or.inr (Or.inl ⟨t, h⟩)
  cases hs with
  | take _ mem =>
    refine hkeep (fun hj => ?_) h
    cases hj
    exact Or.inl mem
  | @schedule t' _ _ _ acts _ => exact hkeep (fun hj => Or.inr (Or.inl ⟨t', acts.job hj⟩)) h
  | @connect t' _ _ sched | @connectNow t' _ _ sched =>
    refine hkeep (fun hj => Or.inr (Or.inl ⟨t', ?_⟩)) h
    rw [sched]
    exact hj
  | _ => exact Or.inr (Or.inl ⟨t, h⟩)

theorem Step.work_job (hs : Step s l s') {w : W} (h : (s'.work w).job = some j) : s.Reaches j := by
  have hold : ∀ {w}, (s.work w).job = some j → s.Reaches j := fun h => Or.inr (Or.inr (Or.inr (Or.inr ⟨_, h⟩)))
  have hkeep : ∀ {w' : W} {c : Work}, (c.job = some j → s.Reaches j) → (Function.update s.work w' c w).job = some j →
      s.Reaches j := by
    intro w' c hc h
    rw [Function.update_apply] at h
    split at h
    · exact hc h
    · exact hold h
  cases hs with
  | @start w' task _ _ tasks =>
    refine hkeep (fun hj => Or.inr (Or.inr (Or.inr (Or.inl ⟨task, tasks ▸ List.mem_cons_self, ?_⟩)))) h
    cases task <;> exact Option.some.inj hj
  | @work w' _ _ _ acts _ => exact hkeep (fun hj => hold (acts.job hj)) h
  | @pipe w' _ _ _ _ _ _ work _ =>
    refine hkeep (fun hj => hold (w := w') ?_) h
    rw [work, ← Work.piped_job hj]
    rfl
  | _ => exact hold h

/-- A job is reached from where it was, or it is new. -/
theorem Step.reaches (hs : Step s l s') (h : s'.Reaches j) :
    s.Reaches j ∨ j = s.jobCount ∧ s'.jobCount = s.jobCount + 1 := by
  rcases h with hqueue | ⟨t, ht⟩ | ⟨cb, hcb, hlive, hj⟩ | ⟨task, htask, rfl⟩ | ⟨w, hw⟩
  · cases hs with
    | accept _ =>
      rcases List.mem_append.mp hqueue with hmem | hmem
      · exact Or.inl (Or.inl hmem)
      · exact Or.inr ⟨List.mem_singleton.mp hmem, rfl⟩
    | purge _ _ | take _ _ => exact Or.inl (Or.inl (List.mem_of_mem_erase hqueue))
    | _ => exact Or.inl (Or.inl hqueue)
  · exact Or.inl (hs.sched_job ht)
  · rcases hs.held hcb with hcb | ⟨heap, -⟩
    · refine Or.inl (Or.inr (Or.inr (Or.inl ⟨cb, hcb, ?_, hj⟩)))
      rw [← Bool.not_eq_true]
      intro hfreed
      rw [hs.freed_mono hfreed] at hlive
      cases hlive
    · rcases hs.made heap hj with ⟨t, ht⟩ | ⟨w, hw⟩
      · exact Or.inl (Or.inr (Or.inl ⟨t, ht⟩))
      · exact Or.inl (Or.inr (Or.inr (Or.inr (Or.inr ⟨w, hw⟩))))
  · exact Or.inl (hs.task_job htask)
  · exact Or.inl (hs.work_job hw)

theorem Step.jobCount_le (hs : Step s l s') : s.jobCount ≤ s'.jobCount := by
  cases hs with
  | accept _ => exact Nat.le_succ _
  | _ => exact Nat.le_refl _

variable {xs : List (Sys S W × Label S W)}

/-- Only jobs that were accepted are reached. -/
theorem lt_of_reaches (run : (system S W).Run xs s) (h : s.Reaches j) : j < s.jobCount := by
  refine run.always (P := fun s => ∀ j, s.Reaches j → j < s.jobCount) (fun j h => ?_) (fun _ h hn j hj => ?_) j h
  · rcases h with h | ⟨t, h⟩ | ⟨cb, hcb, -, h⟩ | ⟨task, h, -⟩ | ⟨w, h⟩
    · cases h
    · cases h
    · rcases hcb with hcb | hcb | hcb
      · simp only [system, List.mem_cons, List.not_mem_nil, or_false] at hcb
        rcases hcb with rfl | rfl <;> cases h
      · cases hcb
      · cases hcb
    · cases h
    · cases h
  · have hs := (next_step hn).2
    rcases hs.reaches hj with hbefore | ⟨rfl, hcount⟩
    · exact Nat.lt_of_lt_of_le (h j hbefore) hs.jobCount_le
    · rw [hcount]
      exact Nat.lt_succ_self _

omit [Fintype S] [Fintype W] [DecidableEq S] [DecidableEq W] in
/-- Nobody comes to a job that nobody holds a pointer to any more. -/
theorem not_reaches_of_dead (known : Known s) (hqueue : j ∉ s.queue) (hdead : ¬s.Alive j) : ¬s.Reaches j := by
  rintro (h | ⟨t, ht⟩ | ⟨cb, hcb, hlive, hj⟩ | ⟨task, htask, hj⟩ | ⟨w, hw⟩)
  · exact hqueue h
  · exact hdead (Or.inr (Or.inr (Or.inl ⟨t, ht⟩)))
  · have hclosure := known.held cb hcb
    exact hdead (Or.inl ⟨cb.id, (List.getElem?_eq_some_iff.mp hclosure).1, hlive, by rw [hclosure]; exact hj⟩)
  · exact hdead (Or.inr (Or.inl ⟨task, htask, hj⟩))
  · exact hdead (Or.inr (Or.inr (Or.inr ⟨w, hw⟩)))

/-- What the reactor has of a `MonitorCallbackWrapper` is not deleted, in whatever order the threads go. -/
theorem monitor_live (run : (system S W).Run xs s) (hcb : s.Held cb) {side : Side} (hj : cb.closure = .monitor j side) :
    s.freed cb.id = false := by
  refine run.always (P := fun s => ∀ cb, s.Held cb → cb.closure = .monitor j side → s.freed cb.id = false)
    (fun _ _ _ => rfl) (fun run h hn cb hcb hj => ?_) cb hcb hj
  rw [← Bool.not_eq_true]
  intro hfreed
  obtain ⟨hheld, hbefore | ⟨t, j', -, -, hfirst, -⟩ | ⟨w, j', -, -, hsecond, -⟩⟩ :=
    (next_step hn).2.freed_held run hcb hfreed
  · rw [h cb hheld hj] at hbefore
    cases hbefore
  · rw [hj] at hfirst
    cases hfirst
  · rw [hj] at hsecond
    cases hsecond

end Steps
end Dans.ProxyJobs
