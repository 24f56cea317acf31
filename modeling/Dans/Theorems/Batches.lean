import Mathlib.Data.Fintype.Basic
import Mathlib.Data.List.Count
import Dans.Reactor

/-! The batches of the reactor. A worker reads the entries of its batch from `_events` one by one, and the vector is
    the one that every worker's `epoll_wait` writes: with one worker each batch is handled as it was returned, and with
    two a batch that is only partly handled can be written over. -/

namespace Dans.Reactor

variable {W : Type}

/-- The entries that a worker at this point is still to handle. -/
def Pc.pending (slots : Nat → Option EpollEvent) : Pc → List EpollEvent
  | handling i count => (List.range' i (count - i)).filterMap slots
  | _ => []

def Pc.isHandling : Pc → Bool
  | handling _ _ => true
  | _ => false

/-- Each event that `epoll_wait` has returned leads to one call: no event has had more calls than returns, a worker
    in its loop goes on to call the next entry, and when no worker is in its loop every event has had its call. -/
structure Sys.ExactlyOnce [DecidableEq W] (s : Sys W) : Prop where
  notTwice : ∀ e, s.invoked.count e ≤ s.returned.count e
  goesOn : ∀ w, (s.pc w).isHandling = true → ∃ s' e, s.next (.handle w) = some s' ∧ s'.invoked = s.invoked ++ [e]
  notLost : (∀ w, (s.pc w).isHandling = false) → ∀ e, s.invoked.count e = s.returned.count e

/-- What has been returned is what has been called and what the worker has in front of it, in this order. -/
structure InOrder (s : Sys W) : Prop where
  fault : s.fault = false
  filled : ∀ w i count, s.pc w = .handling i count → i < count ∧ ∀ j, i ≤ j → j < count → ∃ e, s.events j = some e
  whole : ∀ w, s.returned = s.invoked ++ (s.pc w).pending s.events
  unmanned : IsEmpty W → s.returned = s.invoked

theorem filterMap_fill (slots : Nat → Option EpollEvent) (before events : List EpollEvent) :
    (List.range' before.length events.length).filterMap (fill slots (before ++ events)) = events := by
  induction events generalizing before with
  | nil => rfl
  | cons e events ih =>
    have hhead : fill slots (before ++ e :: events) before.length = some e := by simp [fill]
    have htail := ih (before ++ [e])
    simp only [List.length_append, List.length_singleton, List.append_assoc, List.singleton_append] at htail
    simp [List.range'_succ, hhead, htail]

theorem pending_loop (slots : Nat → Option EpollEvent) (i count : Nat) :
    (Pc.loop i count).pending slots = (List.range' i (count - i)).filterMap slots := by
  unfold Pc.loop
  split
  · rfl
  · next h => simp [Pc.pending, Nat.sub_eq_zero_of_le (Nat.le_of_not_lt h)]

theorem pending_fill (slots : Nat → Option EpollEvent) (events : List EpollEvent) :
    (Pc.loop 0 events.length).pending (fill slots events) = events := by
  rw [pending_loop]
  exact filterMap_fill slots [] events

theorem pending_handling {slots : Nat → Option EpollEvent} {i count : Nat} {e : EpollEvent} (hi : i < count)
    (he : slots i = some e) : (Pc.handling i count).pending slots = e :: (Pc.loop (i + 1) count).pending slots := by
  have hrange : count - i = (count - (i + 1)) + 1 := by omega
  rw [pending_loop, Pc.pending, hrange, List.range'_succ, List.filterMap_cons_some he]

theorem loop_eq_handling {i count j n : Nat} (h : Pc.loop i count = .handling j n) : j = i ∧ n = count ∧ i < count := by
  unfold Pc.loop at h
  split at h
  · cases h
    exact ⟨rfl, rfl, ‹_›⟩
  · cases h

theorem exists_fill {slots : Nat → Option EpollEvent} {events : List EpollEvent} {j : Nat} (hj : j < events.length) :
    ∃ e, fill slots events j = some e := ⟨events[j], by simp [fill, hj]⟩

variable [DecidableEq W] {s s' : Sys W} {l : Label W}

/-- What the labels do while no null entry has been called. -/
inductive Effect (s : Sys W) : Label W → Sys W → Prop where
  | wait {w : W} {events : List EpollEvent} (pc : s.pc w = .waiting) (fits : events.length ≤ kMaxEvents) :
      Effect s (.wait w events)
        { s.goto w (.loop 0 events.length) with events := fill s.events events, returned := s.returned ++ events }
  | error {w : W} (pc : s.pc w = .waiting) : Effect s (.error w) (s.goto w (.checking none))
  | null {w : W} {i count : Nat} (pc : s.pc w = .handling i count) (null : s.events i = none) :
      Effect s (.handle w) { s with fault := true }
  | handle {w : W} {i count : Nat} {e : EpollEvent} (pc : s.pc w = .handling i count) (entry : s.events i = some e) :
      Effect s (.handle w) { s.goto w (.loop (i + 1) count) with invoked := s.invoked ++ [e] }
  | check {w : W} {count : Option Nat} {c : Pc} (pc : s.pc w = .checking count) (next : c = .returned ∨ c = .waiting) :
      Effect s (.check w) (s.goto w c)
  | destruct : Effect s .destruct { s with destructing := true }

theorem next_effect (h : s.next l = some s') : Effect s l s' := by
  cases l with
  | wait w events =>
    simp only [Sys.next] at h
    split at h
    · next hok =>
      cases h
      exact .wait hok.2.1 hok.2.2
    · cases h
  | error w =>
    simp only [Sys.next] at h
    split at h
    · next hok =>
      cases h
      exact .error hok.2
    · cases h
  | handle w =>
    simp only [Sys.next] at h
    split at h
    · next hpc =>
      split at h <;> cases h
      · exact .null hpc ‹_›
      · exact .handle hpc ‹_›
    · cases h
  | check w =>
    simp only [Sys.next] at h
    split at h
    · next hpc =>
      cases h
      refine .check hpc ?_
      split
      · exact Or.inl rfl
      · exact Or.inr rfl
    · cases h
  | destruct =>
    simp only [Sys.next] at h
    split at h <;> cases h
    exact .destruct

namespace InOrder

theorem exactlyOnce (h : InOrder s) : s.ExactlyOnce := by
  have hhead : ∃ rest, s.returned = s.invoked ++ rest := by
    rcases isEmpty_or_nonempty W with hW | ⟨⟨w⟩⟩
    · exact ⟨[], by simp [h.unmanned hW]⟩
    · exact ⟨_, h.whole w⟩
  refine ⟨fun e => ?_, fun w hw => ?_, fun hquiet e => ?_⟩
  · obtain ⟨rest, hrest⟩ := hhead
    simp [hrest]
  · cases hpc : s.pc w with
    | handling i count =>
      obtain ⟨hlt, hfilled⟩ := h.filled w i count hpc
      obtain ⟨e, he⟩ := hfilled i (Nat.le_refl i) hlt
      refine ⟨{ s.goto w (.loop (i + 1) count) with invoked := s.invoked ++ [e] }, e, ?_, rfl⟩
      simp [Sys.next, h.fault, hpc, he]
    | waiting | checking _ | returned => simp [hpc, Pc.isHandling] at hw
  · rcases isEmpty_or_nonempty W with hW | ⟨⟨w⟩⟩
    · rw [h.unmanned hW]
    · have hnone : (s.pc w).pending s.events = [] := by
        have hw := hquiet w
        cases hpc : s.pc w <;> simp [hpc, Pc.pending, Pc.isHandling] at hw ⊢
      rw [h.whole w, hnone, List.append_nil]

variable [Subsingleton W]

/-- The only worker goes to a point with nothing in front of it from one with nothing in front of it. -/
theorem goto (h : InOrder s) {w : W} {c : Pc} (hbefore : (s.pc w).pending s.events = [])
    (hc : ∀ i count, c ≠ .handling i count) : InOrder (s.goto w c) := by
  have hpc : ∀ u, (s.goto w c).pc u = c := fun u => by simp [Sys.goto, Subsingleton.elim u w]
  have hpending : c.pending s.events = [] := by
    cases c with
    | handling i count => exact absurd rfl (hc i count)
    | waiting | checking _ | returned => rfl
  refine ⟨h.fault, fun u i count hu => absurd ((hpc u).symm.trans hu) (hc i count), fun u => ?_, h.unmanned⟩
  have hwhole := h.whole w
  rw [hbefore] at hwhole
  rw [hpc u]
  simpa [Sys.goto, hpending] using hwhole

theorem effect (h : InOrder s) (he : Effect s l s') : InOrder s' := by
  cases he with
  | @wait w events pc fits =>
    refine ⟨h.fault, fun u i count hu => ?_, fun u => ?_, fun hempty => hempty.elim w⟩
    · simp only [Sys.goto, Subsingleton.elim u w, Function.update_self] at hu
      obtain ⟨rfl, rfl, hlt⟩ := loop_eq_handling hu
      exact ⟨hlt, fun j _ hj => exists_fill hj⟩
    · have hwhole : s.returned = s.invoked := by simpa [pc, Pc.pending] using h.whole w
      simp only [Sys.goto, Subsingleton.elim u w, Function.update_self, pending_fill, hwhole]
  | error pc => exact h.goto (by simp [pc, Pc.pending]) (fun _ _ hc => by cases hc)
  | @null w i count pc null =>
    obtain ⟨hlt, hfilled⟩ := h.filled w i count pc
    obtain ⟨e, he⟩ := hfilled i (Nat.le_refl i) hlt
    rw [he] at null
    cases null
  | @handle w i count e pc entry =>
    obtain ⟨hlt, hfilled⟩ := h.filled w i count pc
    refine ⟨h.fault, fun u j n hu => ?_, fun u => ?_, fun hempty => hempty.elim w⟩
    · simp only [Sys.goto, Subsingleton.elim u w, Function.update_self] at hu
      obtain ⟨rfl, rfl, hlt'⟩ := loop_eq_handling hu
      exact ⟨hlt', fun j hj hjn => hfilled j (by omega) hjn⟩
    · have hwhole := h.whole w
      rw [pc, pending_handling hlt entry] at hwhole
      simp [Sys.goto, Subsingleton.elim u w, hwhole]
  | @check w count c pc next =>
    refine h.goto (by simp [pc, Pc.pending]) ?_
    rintro i n rfl
    rcases next with hc | hc <;> cases hc
  | destruct => exact ⟨h.fault, h.filled, h.whole, h.unmanned⟩

end InOrder

theorem inOrder_of_run [Subsingleton W] {xs : List (Sys W × Label W)} (run : (system W).Run xs s) : InOrder s := by
  induction run with
  | init => exact ⟨rfl, fun _ _ _ h => (by cases h), fun _ => rfl, fun _ => rfl⟩
  | step _ next ih => exact ih.effect (next_effect next)

/-- Two workers: the batch of the second is written over that of the first, and both call what it holds. -/
theorem overwritten (w w' : W) (hw : w ≠ w') (a b : EpollEvent) :
    ∃ xs s, (system W).Run xs s ∧ s.returned = [a, b] ∧ s.invoked = [b, b] := by
  have hexec : ∃ s, (system W).exec [.wait w [a], .wait w' [b], .handle w, .handle w'] = some s ∧
      s.returned = [a, b] ∧ s.invoked = [b, b] := by
    simp [Lts.exec, Lts.execFrom, system, Sys.next, Sys.goto, Pc.loop, fill, kMaxEvents, hw, hw.symm]
  obtain ⟨s, hs, hreturned, hinvoked⟩ := hexec
  obtain ⟨xs, run, -⟩ := Lts.run_of_exec hs
  exact ⟨xs, s, run, hreturned, hinvoked⟩

/-- Every event is dispatched exactly once in every run exactly if there is at most one worker. -/
theorem exactlyOnce_iff (numberOfWorkers : Nat) :
    (∀ xs s, (linuxCommunicationHandler numberOfWorkers).Run xs s → s.ExactlyOnce) ↔ numberOfWorkers ≤ 1 := by
  constructor
  · intro h
    refine Nat.le_of_not_lt fun htwo => ?_
    obtain ⟨xs, s, run, hreturned, hinvoked⟩ := overwritten (⟨0, by omega⟩ : Fin numberOfWorkers) ⟨1, htwo⟩ (by simp)
      ⟨0, 1⟩ ⟨1, 1⟩
    have hcount := (h xs s run).notTwice ⟨1, 1⟩
    simp [hreturned, hinvoked] at hcount
  · intro hone xs s run
    have : Subsingleton (Fin numberOfWorkers) := Fin.subsingleton_iff_le_one.mpr hone
    exact (inOrder_of_run run).exactlyOnce

/-- One worker that is handed two events and has called the first of them. -/
theorem exactlyOnce_one : ∃ xs s, (linuxCommunicationHandler 1).Run xs s ∧
    s.returned = [⟨3, 1⟩, ⟨4, 1⟩] ∧ s.invoked = [⟨3, 1⟩] ∧ s.ExactlyOnce := by
  obtain ⟨xs, s, run, -, hs⟩ := Lts.run_of_exec_any (linuxCommunicationHandler 1)
    [.wait 0 [⟨3, 1⟩, ⟨4, 1⟩], .handle 0] (fun s => decide (s.returned = [⟨3, 1⟩, ⟨4, 1⟩] ∧ s.invoked = [⟨3, 1⟩]))
    (by decide)
  obtain ⟨hreturned, hinvoked⟩ := of_decide_eq_true hs
  exact ⟨xs, s, run, hreturned, hinvoked, (exactlyOnce_iff 1).mpr (Nat.le_refl 1) xs s run⟩

/-- With two workers the first event is lost and the second is dispatched twice. -/
theorem two_workers_lose_event : ∃ xs s, (linuxCommunicationHandler 2).Run xs s ∧
    xs.map Prod.snd = [.wait 0 [⟨3, 1⟩], .wait 1 [⟨4, 1⟩], .handle 0, .handle 1] ∧
    s.returned = [⟨3, 1⟩, ⟨4, 1⟩] ∧ s.invoked = [⟨4, 1⟩, ⟨4, 1⟩] ∧ ∀ w, (s.pc w).isHandling = false := by
  obtain ⟨xs, s, run, hls, hs⟩ := Lts.run_of_exec_any (linuxCommunicationHandler 2)
    [.wait 0 [⟨3, 1⟩], .wait 1 [⟨4, 1⟩], .handle 0, .handle 1]
    (fun s => decide (s.returned = [⟨3, 1⟩, ⟨4, 1⟩] ∧ s.invoked = [⟨4, 1⟩, ⟨4, 1⟩] ∧
      ∀ w, (s.pc w).isHandling = false)) (by decide)
  exact ⟨xs, s, run, hls, of_decide_eq_true hs⟩

end Dans.Reactor
