import Dans.Theorems.Gates
import Dans.Theorems.Slots

/-! Threads that are busy with a job or a decision, and what a decision remembers. A decision reads the
    primary count and the size of the primary list and acts on them later; whoever makes them smaller in the
    meantime is busy with a decision of its own, which waits for `_state_lock`. -/

namespace Dans.MultiQueue

variable {T : Type}

theorem dequeueTurn_frame (q : MultiQueue T) (p : Priority) : match q.dequeueTurn p with
    | .waits => True
    | .again q' => q'.priorityQs = q.priorityQs ∧ q'.releaseOne = q.releaseOne ∧ q'.released = q.released
    | .returns q' none => (q.releaseOne p = true ∨ q.released = true) ∧ q'.priorityQs = q.priorityQs ∧
        (∀ p', q'.releaseOne p' = true → q.releaseOne p' = true) ∧ q'.released = q.released
    | .returns q' (some _) => (∀ p', p' ≠ p → q'.priorityQs p' = q.priorityQs p') ∧ q'.releaseOne = q.releaseOne ∧
        q'.released = q.released
    | .fault _ => True := by
  unfold dequeueTurn
  by_cases hgate : q.notEmpty p = false
  · simp [hgate]
  by_cases hflag : q.releaseOne p = true
  · simp only [hgate, closeGate_releaseOne, hflag, ↓reduceIte]
    refine ⟨Or.inl trivial, rfl, fun p' hp' => ?_, rfl⟩
    simp only [clearReleaseOne, closeGate_releaseOne, Function.update_apply] at hp'
    split at hp'
    · cases hp'
    · exact hp'
  by_cases hempty : q.priorityQs p = []
  · by_cases hrel : q.released = true
    · simp only [hgate, closeGate_releaseOne, hflag, closeGate_priorityQs, closeGate_released, hempty, hrel,
        List.isEmpty_nil, Bool.and_true, Bool.false_eq_true, ↓reduceIte]
      exact ⟨Or.inr trivial, rfl, fun _ => id, hrel⟩
    · simp only [hgate, closeGate_releaseOne, hflag, closeGate_priorityQs, closeGate_released, hempty, hrel,
        List.isEmpty_nil, Bool.and_false, Bool.false_eq_true, ↓reduceIte]
      exact ⟨rfl, rfl, Bool.eq_false_of_not_eq_true hrel⟩
  have hne : (q.priorityQs p).isEmpty = false := by simpa using hempty
  simp only [hgate, closeGate_releaseOne, hflag, closeGate_priorityQs, hne, Bool.false_and, Bool.false_eq_true, ↓reduceIte]
  cases hpop : (q.closeGate p).popNode p with
  | error f => trivial
  | ok x =>
    obtain ⟨n, q₁⟩ := x
    obtain ⟨rest, -, hlists, -, -, -, hrel, hflags, -⟩ := popNode_ok hpop
    dsimp only
    cases htake : q₁.takeEntry p n.jobId with
    | error f => trivial
    | ok y =>
      obtain ⟨job, q₂⟩ := y
      obtain ⟨-, -, -, -, -, -, -, -, -, hsame, -⟩ := takeEntry_ok htake
      have hgates := takeEntry_gates htake
      refine ⟨fun p' hp' => ?_, hgates.releaseOne.trans hflags, hgates.released.trans hrel⟩
      simp [hsame, hlists, Function.update_of_ne hp']

end Dans.MultiQueue

namespace Dans.Throttle

variable {Tid T : Type} [DecidableEq Tid] {s s' : Sys Tid T} {l : Label Tid T} {t u : Tid}

/-! ### Busy threads -/

/-- With a job that is not yet counted, or on the way to the end of a decision. -/
def Pc.busy : Pc T → Bool
  | wrap _ _ | enter _ | count _ | size _ _ | primary _ _ | secondary _ _ _ => true
  | _ => false

/-- Another thread than `t` is busy. -/
def Sys.Others (s : Sys Tid T) (t : Tid) : Prop := ∃ u, u ≠ t ∧ (s.pc u).busy = true

omit [DecidableEq Tid] in
theorem Pc.busy_of_locked {c : Pc T} (h : c.locked = true) : c.busy = true := by
  cases c <;> simp_all [Pc.locked, Pc.busy]

theorem busy_kept (he : Effect s l s') (hu : (s.pc u).busy = true) :
    (s'.pc u).busy = true ∨ (s.pc u).locked = true ∧ l = .step u := by
  have other : ∀ {t c}, (s.pc t).busy = false ∨ c.busy = true → (Function.update s.pc t c u).busy = true := by
    intro t c hc
    by_cases hut : u = t
    · subst hut
      simpa using hc.resolve_left (by simp [hu])
    · simpa [hut] using hu
  cases he with
  | again _ _ | setThrottle _ | queueOp _ _ | fail => exact Or.inl hu
  | call pc | block pc _ | null pc _ | job pc _ | complete pc _ _ => exact Or.inl (other (Or.inl (by rw [pc]; rfl)))
  | wrap _ _ | clear _ _ | enter _ _ | count _ | size _ | grant _ _ | keep _ _ => exact Or.inl (other (Or.inr rfl))
  | @hold t d high attempted pc _ | @sendAway t d high attempted pc _ | @low t d high attempted pc _ =>
    by_cases hut : u = t
    · exact Or.inr ⟨by rw [hut, pc]; rfl, by rw [hut]⟩
    · exact Or.inl (by simpa [Sys.goto, hut] using hu)

theorem pc_of_locked (he : Effect s l s') (hl : l ≠ .step t) (hlock : (s.pc t).locked = true) : s'.pc t = s.pc t := by
  have other : ∀ {u c}, t ≠ u → Function.update s.pc u c t = s.pc t := fun h => Function.update_of_ne h _ _
  cases he with
  | again _ _ | setThrottle _ | queueOp _ _ | fail => rfl
  | @call u p ret pc => exact other fun h => by simp [h, pc, Pc.locked] at hlock
  | @complete u ret serial j pc _ _ => exact other fun h => by simp [h, pc, Pc.locked] at hlock
  | block pc _ | null pc _ | job pc _ | wrap pc _ | clear pc _ | enter pc _ | count pc | size pc | grant pc _ | keep pc _
  | hold pc _ | sendAway pc _ | low pc _ => exact other fun h => hl (by rw [h])

theorem others_kept (locked : Exclusion.One (fun c : Pc T => c.locked = true) s.pc) (he : Effect s l s')
    (hlock : (s.pc t).locked = true) (h : s.Others t) : s'.Others t := by
  obtain ⟨u, hut, hu⟩ := h
  refine ⟨u, hut, (busy_kept he hu).resolve_right ?_⟩
  rintro ⟨hulock, -⟩
  exact hut (locked u t hulock hlock)

/-- Who makes a count smaller becomes busy. -/
theorem counts_kept (he : Effect s l s') (p : Fin 2) : s.th.scheduledCounts p ≤ s'.th.scheduledCounts p ∨
    ∃ u, (s.pc u).busy = false ∧ (s'.pc u).busy = true := by
  cases he with
  | wrap pc hp =>
    refine Or.inl ?_
    simp only [Throttler.addCount, Function.update_apply]
    split
    · next heq => rw [heq]; omega
    · exact le_rfl
  | @complete t ret serial j pc found free =>
    exact Or.inr ⟨t, by rw [pc]; rfl, by simp [Sys.goto, Pc.busy]⟩
  | clear _ _ | grant _ _ | low _ _ => exact Or.inl (by simp)
  | call _ | block _ _ | again _ _ | null _ _ | job _ _ | enter _ _ | count _ | size _ | keep _ _ | hold _ _
  | sendAway _ _ | setThrottle _ | queueOp _ _ | fail => exact Or.inl le_rfl

/-- Nobody purges or releases the queues, and the targets stay as they are. -/
def plain : Label Tid T → Bool
  | .setThrottle _ _ => false
  | .queueOp (.enqueue _) => true
  | .queueOp _ => false
  | _ => true

/-- Who takes a job from the primary list becomes busy. -/
theorem primary_kept (he : Effect s l s') (hl : plain l = true) :
    (s.q.priorityQs 0).length ≤ (s'.q.priorityQs 0).length ∨ ∃ u, (s.pc u).busy = false ∧ (s'.pc u).busy = true := by
  cases he with
  | @again t p q pc turn =>
    have hframe := s.q.dequeueTurn_frame p
    rw [turn] at hframe
    exact Or.inl (by rw [hframe.1])
  | @null t p q pc turn =>
    have hframe := s.q.dequeueTurn_frame p
    rw [turn] at hframe
    exact Or.inl (by rw [hframe.2.1])
  | @job t p q job pc turn => exact Or.inr ⟨t, by rw [pc]; rfl, by simp [Sys.goto, Pc.busy]⟩
  | sendAway _ _ => exact Or.inl (by simp)
  | @queueOp op q ret other done =>
    cases op with
    | enqueue job =>
      simp only [MultiQueue.call, MultiQueue.enqueue] at done
      split at done <;> cases done
      refine Or.inl ?_
      simp only [MultiQueue.insertEntry_priorityQs, MultiQueue.insertNode_priorityQs, Function.update_apply]
      split
      · next h => simp [← h]
      · exact le_rfl
    | _ => cases hl
  | call _ | block _ _ | wrap _ _ | clear _ _ | enter _ _ | count _ | size _ | grant _ _ | keep _ _ | hold _ _ | low _ _
  | complete _ _ _ | setThrottle _ | fail => exact Or.inl le_rfl

end Dans.Throttle
