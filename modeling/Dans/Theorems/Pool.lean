import Dans.Theorems.Alone
import Dans.Theorems.History

/-! Threads that share a queue from which nothing is purged: the jobs of a priority leave it in the order in which they
    went in, none is lost and none leaves twice. -/

namespace Dans.Threads
open MultiQueue

variable {Tid T : Type}

/-- No `Purge` is in progress. -/
def NoPurge (s : Sys Tid T) : Prop := ∀ t id, s.pc t ≠ .purgeLock id ∧ s.pc t ≠ .purgeBody id

/-- The label calls no `Purge`. -/
def callsNoPurge (_ : Sys Tid T) (l : Label Tid T) : Prop := ∀ t id, l ≠ .call t (.purge id)

/-- The jobs of a priority that have gone in are, in their order: those handed out, those in the hands of a `Dequeue`
    that has popped their node, and those whose node is in the list. -/
def InOrder (xs : List (Sys Tid T × Label Tid T)) (s : Sys Tid T) (p : Priority) : Prop :=
  ∃ hand waiting, (inserted xs).filter (·.job.priority == p) = (handed xs).filter (·.job.priority == p) ++ hand ++ waiting ∧
    waiting.map Entry.node = s.q.priorityQs p ∧ ∀ n, s.Popped p n ↔ n ∈ hand.map Entry.node

section Steps
variable [DecidableEq Tid] {xs : List (Sys Tid T × Label Tid T)} {s s' : Sys Tid T} {l : Label Tid T} {t : Tid}
  {p : Priority}

theorem NoPurge.effect (h : NoPurge s) (hok : callsNoPurge s l) (he : Effect s l s') : NoPurge s' := by
  have become : ∀ {t q} {c : Pc T}, (∀ id, c ≠ .purgeLock id ∧ c ≠ .purgeBody id) → NoPurge (s.become t q c) := by
    intro t q c hc u id
    simp only [Sys.become, Function.update_apply]
    split
    · exact hc id
    · exact h u id
  cases he with
  | @call t op _ _ =>
    refine become fun id => ?_
    cases op with
    | purge id => exact absurd rfl (hok t id)
    | _ => simp [Pc.start]
  | @move t c c' pc goes =>
    refine become fun id => ?_
    cases goes with
    | purgeLock _ => exact absurd pc (h t _).1
    | _ => simp
  | fail _ _ | callFail _ => exact h
  | _ => exact become fun id => by simp

omit [DecidableEq Tid] in
/-- A step that leaves lists and popped nodes as they are, and neither inserts nor hands out. -/
theorem InOrder.frame (h : InOrder xs s p) (silent : Silent s l) (hq : s'.q.priorityQs p = s.q.priorityQs p)
    (hpop : ∀ n, s'.Popped p n ↔ s.Popped p n) : InOrder (xs ++ [(s, l)]) s' p := by
  obtain ⟨hand, waiting, hsplit, hlist, hpopped⟩ := h
  refine ⟨hand, waiting, ?_, hq ▸ hlist, fun n => (hpop n).trans (hpopped n)⟩
  simpa [silent.inserts, silent.hands] using hsplit

theorem InOrder.insert (h : InOrder xs s p) (hand : HandOver s) {job : Job T} (pc : s.pc t = .enqInsert job) :
    InOrder (xs ++ [(s, .step t)]) (s.become t (s.q.insertNode job) (.enqMapLock job s.q.nextAddr)) p := by
  obtain ⟨popped, waiting, hsplit, hlist, hpopped⟩ := h
  have hins : s.inserts (.step t) = [⟨job, s.q.nextAddr⟩] := by simp [Sys.inserts, pc]
  have hhands : s.hands (.step t) = [] := by simp [Sys.hands, pc]
  have hpop : ∀ n, (s.become t (s.q.insertNode job) (.enqMapLock job s.q.nextAddr)).Popped p n ↔ s.Popped p n := fun n =>
    hand.popped_become.trans (HandOver.pending_pops_iff (by simp [pc, Pc.pops]) p n)
  by_cases hp : job.priority = p
  · refine ⟨popped, waiting ++ [⟨job, s.q.nextAddr⟩], ?_, ?_, fun n => (hpop n).trans (hpopped n)⟩
    · simp [hins, hhands, hsplit, hp]
    · simp [insertNode_priorityQs, hp, hlist, Entry.node]
  · refine ⟨popped, waiting, ?_, ?_, fun n => (hpop n).trans (hpopped n)⟩
    · simp [hins, hhands, hsplit, hp]
    · simp [insertNode_priorityQs, Function.update_of_ne (Ne.symm hp), hlist]

theorem InOrder.pop (h : InOrder xs s p) (hand : HandOver s) {p' : Priority} {n : Node} {q : MultiQueue T}
    (pc : s.pc t = .deqPop p') (popped : s.q.popNode p' = .ok (n, q)) :
    InOrder (xs ++ [(s, .step t)]) (s.become t q (.deqMapLock p' n)) p := by
  obtain ⟨rest, hhead, hlists, -⟩ := popNode_ok popped
  have hsilent : s.inserts (.step t) = [] ∧ s.hands (.step t) = [] := by simp [Sys.inserts, Sys.hands, pc]
  have hpop : ∀ m, (s.become t q (.deqMapLock p' n)).Popped p m ↔ p' = p ∧ n = m ∨ s.Popped p m := fun m => by
    rw [hand.popped_become]
    simp [pc, Pc.pops]
  obtain ⟨hands, waiting, hsplit, hlist, hpopped⟩ := h
  by_cases hp : p' = p
  · subst hp
    rw [hhead] at hlist
    obtain ⟨e, waiting, rfl, rfl, rfl⟩ := List.map_eq_cons_iff.mp hlist
    refine ⟨hands ++ [e], waiting, ?_, by simp [hlists], fun m => ?_⟩
    · simp [hsilent.1, hsilent.2, hsplit]
    · rw [hpop, hpopped, List.map_append, List.mem_append, or_comm]
      simp [eq_comm]
  · refine ⟨hands, waiting, ?_, ?_, fun m => ?_⟩
    · simp [hsilent.1, hsilent.2, hsplit]
    · simp [hlists, Function.update_of_ne (Ne.symm hp), hlist]
    · rw [hpop, hpopped]
      simp [hp]

theorem InOrder.take (h : InOrder xs s p) (hand : HandOver s) (locks : Locks s) (history : History xs s) {p' : Priority}
    {n : Node} {job : Job T} {q : MultiQueue T} (pc : s.pc t = .deqMap p' n)
    (taken : s.q.takeEntry p' n.jobId = .ok (job, q)) {ret : Option (Ret T)} :
    InOrder (xs ++ [(s, .step t)]) (s.become t q (.idle ret)) p := by
  have hsilent : s.inserts (.step t) = [] := by simp [Sys.inserts, pc]
  have hhands : s.hands (.step t) = [⟨job, n.addr⟩] := by simp [Sys.hands, pc, taken]
  have hpop : ∀ m, (s.become t q (.idle ret)).Popped p m ↔ s.Popped p m ∧ ¬(p' = p ∧ n = m) := fun m => by
    rw [hand.popped_become]
    simp [pc, Pc.pops]
  obtain ⟨e, q', htake, hhas, hprio, rfl, -, -, hlists⟩ := hand.takeEntry locks pc
  rw [htake] at taken
  cases taken
  obtain ⟨hands, waiting, hsplit, hlist, hpopped⟩ := h
  by_cases hp : p' = p
  · subst hp
    -- In the order of their nodes the one that is taken is the first in hand.
    have hsorted := history.sorted.filter fun e : Entry T => e.job.priority == p'
    rw [hsplit, List.append_assoc] at hsorted
    have hsorted := (List.pairwise_append.mp (List.pairwise_append.mp hsorted).2.1).1
    have hmem : e.node ∈ hands.map Entry.node := (hpopped _).mp ⟨t, by simp [pc, Pc.pops]⟩
    obtain ⟨first, hands, rfl⟩ := List.exists_cons_of_ne_nil (l := hands) (by rintro rfl; cases hmem)
    rw [List.pairwise_cons] at hsorted
    have hfirst : first.node = e.node := by
      by_contra hne
      have hbefore := hand.popped_next locks pc ((hpopped first.node).mpr (by simp)) hne
      obtain ⟨e', he', heq⟩ := List.mem_map.mp ((List.mem_cons.mp hmem).resolve_left fun heq => hne heq.symm)
      have hafter := hsorted.1 e' he'
      have hiter : e'.iter = e.iter := congrArg Node.addr heq
      exact absurd hbefore (by simp only [Entry.node]; omega)
    have heq : e = first := by
      have hin : first ∈ (inserted xs).filter (·.job.priority == p') := by simp [hsplit]
      have hnodup : ((inserted xs).map (·.iter)).Nodup := by
        rw [List.Nodup, List.pairwise_map]
        exact history.sorted.imp fun hlt => hlt.ne
      exact List.inj_on_of_nodup_map hnodup (history.live e (Or.inl hhas)) (List.mem_filter.mp hin).1
        (congrArg Node.addr hfirst).symm
    subst heq
    refine ⟨hands, waiting, ?_, hlist.trans (congrFun hlists p').symm, fun m => ?_⟩
    · have hentry : (⟨e.job, e.node.addr⟩ : Entry T) = e := rfl
      simp [hsilent, hhands, hsplit, hprio, hentry]
    · rw [hpop, hpopped, List.map_cons, List.mem_cons]
      constructor
      · rintro ⟨rfl | hm, hne⟩
        · exact absurd ⟨rfl, rfl⟩ hne
        · exact hm
      · intro hm
        refine ⟨Or.inr hm, fun heq => ?_⟩
        obtain ⟨e', he', rfl⟩ := List.mem_map.mp hm
        have hlt := hsorted.1 e' he'
        have hiter : e.iter = e'.iter := congrArg Node.addr heq.2
        omega
  · refine ⟨hands, waiting, ?_, hlist.trans (congrFun hlists p).symm, fun m => ?_⟩
    · have hne : e.job.priority ≠ p := fun heq => hp (hprio.symm.trans heq)
      simp [hsilent, hhands, hsplit, hne]
    · rw [hpop, hpopped]
      simp [hp]

theorem InOrder.effect (h : InOrder xs s p) (hand : HandOver s) (locks : Locks s) (history : History xs s)
    (nopurge : NoPurge s) (he : Effect s l s') : InOrder (xs ++ [(s, l)]) s' p := by
  -- A step between points at which the same nodes are popped.
  have frame : ∀ {t q} {c : Pc T}, Silent s l → q.priorityQs = s.q.priorityQs → c.pops = (s.pc t).pops →
      InOrder (xs ++ [(s, l)]) (s.become t q c) p := by
    intro t q c silent hq hc
    exact h.frame silent (congrFun hq p) fun n => hand.popped_become.trans (HandOver.pending_pops_iff hc p n)
  cases he with
  | @call t op idle _ =>
    refine frame ⟨rfl, rfl, rfl⟩ rfl ?_
    cases op <;> cases hc : s.pc t <;> simp_all [Pc.isIdle, Pc.pops, Pc.start]
  | @move t _ _ pc goes =>
    cases goes <;>
      exact frame (by constructor <;> simp [Sys.inserts, Sys.hands, Sys.drops, pc]) rfl (by simp [pc, Pc.pops])
  | insert pc => exact h.insert hand pc
  | pop pc popped => exact h.pop hand pc popped
  | take pc taken => exact h.take hand locks history pc taken
  | purge pc _ => exact absurd pc (nopurge _ _).2
  | entry pc | one pc =>
    exact frame (by constructor <;> simp [Sys.inserts, Sys.hands, Sys.drops, pc]) (by simp) (by simp [pc, Pc.pops])
  | gate pc _ | flag pc _ | released pc _ _ | all pc =>
    exact frame (by constructor <;> simp [Sys.inserts, Sys.hands, Sys.drops, pc]) rfl (by simp [pc, Pc.pops])
  | callFail _ => exact h.frame ⟨rfl, rfl, rfl⟩ rfl fun _ => Iff.rfl
  | @fail t c f pc faults =>
    refine h.frame ?_ rfl fun _ => Iff.rfl
    cases faults with
    | deqMap herr => constructor <;> simp [Sys.inserts, Sys.hands, Sys.drops, pc, herr]
    | purgeBody _ => exact absurd pc (nopurge _ _).2
    | _ => constructor <;> simp [Sys.inserts, Sys.hands, Sys.drops, pc]

end Steps

variable [DecidableEq Tid] [Fintype Tid] {maxPriority : Priority} {xs : List (Sys Tid T × Label Tid T)} {s : Sys Tid T}

theorem inOrder_of_run (run : (system Tid T maxPriority).Run xs s) (hok : Lts.Meets callsNoPurge xs) :
    NoPurge s ∧ ∀ p, InOrder xs s p := by
  induction run with
  | init =>
    refine ⟨fun t id => by simp [system], fun p => ⟨[], [], rfl, rfl, fun n => ?_⟩⟩
    simp [Sys.Popped, system, Pc.pops]
  | step run hn ih =>
    obtain ⟨hbefore, hlast⟩ := hok.of_append
    obtain ⟨nopurge, horder⟩ := ih hbefore
    have he := next_effect hn
    refine ⟨nopurge.effect (hlast _ (List.mem_singleton_self _)) he, fun p => ?_⟩
    exact (horder p).effect (handOver_of_run run) (locks_of_run run) (history_of_run run) nopurge he

end Dans.Threads
