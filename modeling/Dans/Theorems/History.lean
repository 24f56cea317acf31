import Dans.Theorems.HandOver

/-! What happens to each job over a whole run of the threads. A job is followed by the node that its own
    `Enqueue` inserted: the runs record the entries inserted, handed out and dropped. -/

namespace Dans.Threads
open MultiQueue

variable {Tid T : Type}

/-! ### The record of a run -/

/-- The job that a step inserts, with its node. -/
def Sys.inserts (s : Sys Tid T) : Label Tid T → List (Entry T)
  | .call _ _ => []
  | .step t =>
    match s.pc t with
    | .enqInsert job => [⟨job, s.q.nextAddr⟩]
    | _ => []

/-- The job that a `Dequeue` returns with a step, with the node it had popped. -/
def Sys.hands (s : Sys Tid T) : Label Tid T → List (Entry T)
  | .call _ _ => []
  | .step t =>
    match s.pc t with
    | .deqMap p n =>
      match s.q.takeEntry p n.jobId with
      | .ok (job, _) => [⟨job, n.addr⟩]
      | .error _ => []
    | _ => []

/-- The jobs that a `Purge` drops with a step, with their nodes. -/
def Sys.drops (s : Sys Tid T) : Label Tid T → List (Entry T)
  | .call _ _ => []
  | .step t =>
    match s.pc t with
    | .purgeBody id => s.q.entries id
    | _ => []

def inserted (xs : List (Sys Tid T × Label Tid T)) : List (Entry T) := xs.flatMap fun x => x.1.inserts x.2
def handed (xs : List (Sys Tid T × Label Tid T)) : List (Entry T) := xs.flatMap fun x => x.1.hands x.2
def dropped (xs : List (Sys Tid T × Label Tid T)) : List (Entry T) := xs.flatMap fun x => x.1.drops x.2

section Snoc
variable (xs : List (Sys Tid T × Label Tid T)) (s : Sys Tid T) (l : Label Tid T)

@[simp] theorem inserted_snoc : inserted (xs ++ [(s, l)]) = inserted xs ++ s.inserts l := by simp [inserted]
@[simp] theorem handed_snoc : handed (xs ++ [(s, l)]) = handed xs ++ s.hands l := by simp [handed]
@[simp] theorem dropped_snoc : dropped (xs ++ [(s, l)]) = dropped xs ++ s.drops l := by simp [dropped]

end Snoc

/-- A step that neither inserts, nor hands out, nor drops a job. -/
structure Silent (s : Sys Tid T) (l : Label Tid T) : Prop where
  inserts : s.inserts l = []
  hands : s.hands l = []
  drops : s.drops l = []

/-- The record of a run and the state it has reached: what is live was inserted, what is gone was inserted
    and is not live, nothing is gone twice, and what has been handed out came before what is left. -/
structure History (xs : List (Sys Tid T × Label Tid T)) (s : Sys Tid T) : Prop where
  fresh : ∀ e ∈ inserted xs, e.iter < s.q.nextAddr
  sorted : (inserted xs).Pairwise fun e e' => e.iter < e'.iter
  live : ∀ e, s.q.Has e ∨ s.Added e → e ∈ inserted xs
  goneInserted : ∀ e ∈ handed xs ++ dropped xs, e ∈ inserted xs
  gone : ∀ e ∈ handed xs ++ dropped xs, ∀ p n, s.q.Out s.Popped p n → n.addr ≠ e.iter
  once : ((handed xs ++ dropped xs).map (·.iter)).Nodup
  order : (handed xs).Pairwise fun e e' => e.job.priority = e'.job.priority → e.iter < e'.iter
  front : ∀ e ∈ handed xs, ∀ n, s.q.Out s.Popped e.job.priority n → e.iter < n.addr

namespace History

variable {xs : List (Sys Tid T × Label Tid T)} {s s' : Sys Tid T} {t : Tid} {l : Label Tid T}

/-- What leaves was live, and stays behind nothing that was handed out before. -/
theorem leave (h : History xs s) (hand : HandOver s) (hi : s.inserts l = []) (hn : s'.q.nextAddr = s.q.nextAddr)
    (hlive : ∀ e, s'.q.Has e ∨ s'.Added e → s.q.Has e ∨ s.Added e)
    (hout : ∀ p n, s'.q.Out s'.Popped p n → s.q.Out s.Popped p n)
    (hhas : ∀ e ∈ s.hands l ++ s.drops l, s.q.Has e) (hnodup : ((s.hands l ++ s.drops l).map (·.iter)).Nodup)
    (hgone : ∀ e ∈ s.hands l ++ s.drops l, ∀ p n, s'.q.Out s'.Popped p n → n.addr ≠ e.iter)
    (horder : (s.hands l).Pairwise fun e e' => e.job.priority = e'.job.priority → e.iter < e'.iter)
    (hfront : ∀ e ∈ s.hands l, ∀ n, s'.q.Out s'.Popped e.job.priority n → e.iter < n.addr) :
    History (xs ++ [(s, l)]) s' := by
  have hins : inserted (xs ++ [(s, l)]) = inserted xs := by simp [hi]
  have hperm : (handed (xs ++ [(s, l)]) ++ dropped (xs ++ [(s, l)])).Perm
      (handed xs ++ dropped xs ++ (s.hands l ++ s.drops l)) := by
    simp only [handed_snoc, dropped_snoc, List.append_assoc]
    exact (List.perm_append_comm_assoc _ _ _).append_left _
  have hnode : ∀ e, s.q.Has e → s.q.Out s.Popped e.job.priority e.node := fun e he => hand.linked.node e (Or.inl he)
  constructor
  · rw [hins, hn]
    exact h.fresh
  · rw [hins]
    exact h.sorted
  · rw [hins]
    exact fun e he => h.live e (hlive e he)
  · intro e he
    rw [hins]
    rcases List.mem_append.mp (hperm.mem_iff.mp he) with he | he
    · exact h.goneInserted e he
    · exact h.live e (Or.inl (hhas e he))
  · intro e he p n hpn
    rcases List.mem_append.mp (hperm.mem_iff.mp he) with he | he
    · exact h.gone e he p n (hout p n hpn)
    · exact hgone e he p n hpn
  · rw [(hperm.map _).nodup_iff, List.map_append, List.nodup_append]
    refine ⟨h.once, hnodup, ?_⟩
    intro a ha b hb hab
    obtain ⟨e, he, rfl⟩ := List.mem_map.mp ha
    obtain ⟨e', he', rfl⟩ := List.mem_map.mp hb
    exact h.gone e he _ _ (hnode e' (hhas e' he')) hab.symm
  · rw [handed_snoc, List.pairwise_append]
    refine ⟨h.order, horder, fun e he e' he' hp => ?_⟩
    have := h.front e he e'.node
    rw [hp] at this
    exact this (hnode e' (hhas e' (List.mem_append_left _ he')))
  · intro e he n hn
    rw [handed_snoc] at he
    rcases List.mem_append.mp he with he | he
    · exact h.front e he n (hout _ n hn)
    · exact hfront e he n hn

theorem silent (h : History xs s) (hand : HandOver s) (hs : Silent s l) (hn : s'.q.nextAddr = s.q.nextAddr)
    (hlive : ∀ e, s'.q.Has e ∨ s'.Added e → s.q.Has e ∨ s.Added e)
    (hout : ∀ p n, s'.q.Out s'.Popped p n → s.q.Out s.Popped p n) : History (xs ++ [(s, l)]) s' := by
  refine h.leave hand hs.inserts hn hlive hout ?_ ?_ ?_ ?_ ?_ <;> simp [hs.hands, hs.drops]

section Steps
variable [DecidableEq Tid] {q : MultiQueue T} {c : Pc T}

theorem frame (h : History xs s) (hand : HandOver s) (hs : Silent s l) (hq : q.priorityQs = s.q.priorityQs)
    (hm : q.valueMapper = s.q.valueMapper) (hn : q.nextAddr = s.q.nextAddr) (hadds : c.adds = (s.pc t).adds)
    (hpops : c.pops = (s.pc t).pops) : History (xs ++ [(s, l)]) (s.become t q c) := by
  have hadded : ∀ e, (s.become t q c).Added e ↔ s.Added e := fun e =>
    hand.added_become.trans (HandOver.pending_iff hadds e)
  have hpopped : ∀ p n, (s.become t q c).Popped p n ↔ s.Popped p n := fun p n =>
    hand.popped_become.trans (HandOver.pending_pops_iff hpops p n)
  refine h.silent hand hs hn (fun e => ?_) fun p n => ?_
  · rw [hadded]
    simp [Has, entries, Sys.become, hm]
  · unfold Out
    rw [hpopped]
    simp [Sys.become, hq]

theorem insert (h : History xs s) (hand : HandOver s) {job : Job T} (pc : s.pc t = .enqInsert job) :
    History (xs ++ [(s, .step t)]) (s.become t (s.q.insertNode job) (.enqMapLock job s.q.nextAddr)) := by
  have hins : inserted (xs ++ [(s, .step t)]) = inserted xs ++ [⟨job, s.q.nextAddr⟩] := by
    simp [Sys.inserts, pc]
  have hh : handed (xs ++ [(s, .step t)]) = handed xs := by simp [Sys.hands, pc]
  have hd : dropped (xs ++ [(s, .step t)]) = dropped xs := by simp [Sys.drops, pc]
  set s' := s.become t (s.q.insertNode job) (.enqMapLock job s.q.nextAddr) with hs'
  have hnext : s'.q.nextAddr = s.q.nextAddr + 1 := by simp [hs', Sys.become]
  have hout : ∀ p n, s'.q.Out s'.Popped p n → s.q.Out s.Popped p n ∨ n.addr = s.q.nextAddr := by
    rintro p n (hn | hn)
    · simp only [hs', Sys.become, insertNode_priorityQs, Function.update_apply] at hn
      split at hn
      · next hp =>
        rcases List.mem_append.mp hn with hn | hn
        · exact Or.inl (Or.inl (hp ▸ hn))
        · rw [List.mem_singleton.mp hn]
          exact Or.inr rfl
      · exact Or.inl (Or.inl hn)
    · rw [hs', hand.popped_become] at hn
      simp only [Pc.pops, reduceCtorEq, false_or] at hn
      exact Or.inl (Or.inr hn.1)
  constructor
  · intro e he
    rw [hins] at he
    rw [hnext]
    rcases List.mem_append.mp he with he | he
    · exact Nat.lt_succ_of_lt (h.fresh e he)
    · rw [List.mem_singleton.mp he]
      exact Nat.lt_succ_self _
  · rw [hins, List.pairwise_append]
    refine ⟨h.sorted, List.pairwise_singleton _ _, fun e he e' he' => ?_⟩
    rw [List.mem_singleton.mp he']
    exact h.fresh e he
  · intro e he
    rw [hins]
    rcases he with he | he
    · refine List.mem_append_left _ (h.live e (Or.inl ?_))
      simpa [hs', Sys.become, Has] using he
    · rw [hs', hand.added_become] at he
      rcases he with he | he
      · cases he
        simp
      · exact List.mem_append_left _ (h.live e (Or.inr he.1))
  · rw [hins, hh, hd]
    exact fun e he => List.mem_append_left _ (h.goneInserted e he)
  · rw [hh, hd]
    intro e he p n hn
    rcases hout p n hn with hn | hn
    · exact h.gone e he p n hn
    · rw [hn]
      exact (h.fresh e (h.goneInserted e he)).ne'
  · rw [hh, hd]
    exact h.once
  · rw [hh]
    exact h.order
  · rw [hh]
    intro e he n hn
    rcases hout _ n hn with hn | hn
    · exact h.front e he n hn
    · rw [hn]
      exact h.fresh e (h.goneInserted e (List.mem_append_left _ he))

theorem entry (h : History xs s) (hand : HandOver s) {job : Job T} {iter : Nat} (pc : s.pc t = .enqMap job iter)
    {ret : Option (Ret T)} :
    History (xs ++ [(s, .step t)]) (s.become t (s.q.insertEntry job iter) (.idle ret)) := by
  refine h.silent hand ?_ (by simp [Sys.become]) (fun e he => ?_) fun p n hn => ?_
  · constructor <;> simp [Sys.inserts, Sys.hands, Sys.drops, pc]
  · rcases he with he | he
    · simp only [Sys.become, Has, insertEntry_entries] at he
      split at he
      · rcases List.mem_append.mp he with he | he
        · exact Or.inl he
        · rw [List.mem_singleton.mp he]
          exact Or.inr ⟨t, by simp [pc, Pc.adds]⟩
      · exact Or.inl he
    · exact Or.inr (hand.added_of_become rfl he)
  · refine hn.imp (fun hn => ?_) fun hn => ?_
    · simpa [Sys.become] using hn
    · exact (hand.popped_of_become rfl hn).1

theorem pop (h : History xs s) (hand : HandOver s) {p : Priority} {n : Node} (pc : s.pc t = .deqPop p)
    (popped : s.q.popNode p = .ok (n, q)) : History (xs ++ [(s, .step t)]) (s.become t q (.deqMapLock p n)) := by
  obtain ⟨rest, hlist, hlists, hmap, hnext, -⟩ := popNode_ok popped
  refine h.silent hand ?_ hnext (fun e he => ?_) fun p' m hm => ?_
  · constructor <;> simp [Sys.inserts, Sys.hands, Sys.drops, pc]
  · refine he.imp (fun he => ?_) fun he => ?_
    · simpa [Has, entries, Sys.become, hmap] using he
    · exact hand.added_of_become rfl he
  · rcases hm with hm | hm
    · refine Or.inl ?_
      simp only [Sys.become, hlists, Function.update_apply] at hm
      split at hm
      · next hp =>
        rw [hp, hlist]
        exact List.mem_cons_of_mem _ hm
      · exact hm
    · rw [hand.popped_become] at hm
      rcases hm with hm | hm
      · cases hm
        exact Or.inl (by simp [hlist])
      · exact Or.inr hm.1

theorem take (h : History xs s) (hand : HandOver s) (locks : Locks s) {p : Priority} {n : Node} {job : Job T}
    (pc : s.pc t = .deqMap p n) (taken : s.q.takeEntry p n.jobId = .ok (job, q)) {ret : Option (Ret T)} :
    History (xs ++ [(s, .step t)]) (s.become t q (.idle ret)) := by
  obtain ⟨e, q', htake, hhas, hprio, hnode, linked, hentries, hlists⟩ := hand.takeEntry locks pc
  have hiter : e.iter = n.addr := by rw [← hnode]; rfl
  have hhands : s.hands (.step t) = [e] := by
    simp only [Sys.hands, pc, htake, ← hiter]
  have hdrops : s.drops (.step t) = [] := by simp [Sys.drops, pc]
  rw [htake] at taken
  cases taken
  have hpopped : ∀ p' m, (s.become t q (.idle ret)).Popped p' m → s.Popped p' m ∧ (p', m) ≠ (p, n) := by
    intro p' m hm
    obtain ⟨hm, hne⟩ := hand.popped_of_become rfl hm
    refine ⟨hm, fun heq => hne ?_⟩
    rw [heq, pc]
    rfl
  have hself : s.Popped p n := ⟨t, by simp [pc, Pc.pops]⟩
  have hlater : ∀ m, (s.become t q (.idle ret)).q.Out (s.become t q (.idle ret)).Popped p m → n.addr < m.addr := by
    rintro m (hm | hm)
    · rw [show (s.become t q (.idle ret)).q.priorityQs = s.q.priorityQs from hlists] at hm
      exact hand.linked.front p n hself m hm
    · obtain ⟨hm, hne⟩ := hpopped p m hm
      exact hand.popped_next locks pc hm fun heq => hne (by rw [heq])
  have hout : ∀ p' m, (s.become t q (.idle ret)).q.Out (s.become t q (.idle ret)).Popped p' m →
      s.q.Out s.Popped p' m := by
    rintro p' m (hm | hm)
    · rw [show (s.become t q (.idle ret)).q.priorityQs = s.q.priorityQs from hlists] at hm
      exact Or.inl hm
    · exact Or.inr (hpopped p' m hm).1
  refine h.leave hand ?_ ?_ (fun x hx => ?_) hout ?_ ?_ ?_ ?_ ?_
  · simp [Sys.inserts, pc]
  · exact (takeEntry_gates htake).nextAddr
  · refine hx.imp (fun hx => ?_) fun hx => ?_
    · simp only [Has, Sys.become, hentries] at hx
      split at hx
      · exact List.mem_of_mem_filter hx
      · exact hx
    · exact hand.added_of_become rfl hx
  · simpa [hhands, hdrops] using hhas
  · simp [hhands, hdrops]
  · intro x hx p' m hm heq
    simp only [hhands, hdrops, List.append_nil, List.mem_singleton] at hx
    rw [hx, hiter] at heq
    obtain ⟨rfl, rfl⟩ := hand.linked.apart p' p m n (hout p' m hm) (Or.inr hself) heq
    exact lt_irrefl _ (hlater m hm)
  · simp [hhands]
  · intro x hx m hm
    rw [hhands, List.mem_singleton] at hx
    rw [hx, hprio] at hm
    rw [hx, hiter]
    exact hlater m hm

theorem purge (h : History xs s) (hand : HandOver s) (locks : Locks s) {id : JobId} {count : Nat}
    (pc : s.pc t = .purgeBody id) (purged : s.q.purge id = .ok (count, q)) {ret : Option (Ret T)} :
    History (xs ++ [(s, .step t)]) (s.become t q (.idle ret)) := by
  have hex : (s.pc t).exclusive = true := by simp [pc, Pc.exclusive]
  obtain ⟨q', hpurge, -, hlists, hentries⟩ := (hand.inStep locks hex).purge id
  have hhands : s.hands (.step t) = [] := by simp [Sys.hands, pc]
  have hdrops : s.drops (.step t) = s.q.entries id := by simp [Sys.drops, pc]
  rw [hpurge] at purged
  cases purged
  -- No `Dequeue` is pending, so what is left is in the filtered lists.
  have hout : ∀ p m, (s.become t q (.idle ret)).q.Out (s.become t q (.idle ret)).Popped p m →
      m ∈ s.q.priorityQs p ∧ m.jobId ≠ id := by
    rintro p m (hm | hm)
    · simpa [Sys.become, hlists, bne_iff_ne] using hm
    · obtain ⟨⟨u, hu⟩, -⟩ := hand.popped_of_become rfl hm
      simpa [locks.shared_of_exclusive hex u] using Pc.shared_of_pops hu
  refine h.leave hand ?_ ?_ (fun x hx => ?_) (fun p m hm => Or.inl (hout p m hm).1) ?_ ?_ ?_ ?_ ?_
  · simp [Sys.inserts, pc]
  · exact (purge_gates hpurge).nextAddr
  · refine hx.imp (fun hx => ?_) fun hx => ?_
    · simp only [Has, Sys.become, hentries] at hx
      split at hx
      · cases hx
      · exact hx
    · exact hand.added_of_become rfl hx
  · intro e he
    simp only [hhands, hdrops, List.nil_append] at he
    exact hand.linked.has_of_mem he
  · simpa [hhands, hdrops] using hand.linked.iters_nodup id
  · intro e he p m hm heq
    simp only [hhands, hdrops, List.nil_append] at he
    obtain ⟨hm, hne⟩ := hout p m hm
    have hnode := hand.linked.node e (Or.inl (hand.linked.has_of_mem he))
    obtain ⟨-, rfl⟩ := hand.linked.apart _ _ m e.node (Or.inl hm) hnode heq
    exact hne (hand.linked.key id e he)
  · simp [hhands]
  · simp [hhands]

theorem effect (h : History xs s) (hand : HandOver s) (locks : Locks s) (he : Effect s l s') :
    History (xs ++ [(s, l)]) s' := by
  cases he with
  | @call t op idle _ =>
    refine h.frame hand ⟨rfl, rfl, rfl⟩ rfl rfl rfl ?_ ?_
    · cases op <;> cases hc : s.pc t <;> simp_all [Pc.isIdle, Pc.adds, Pc.start]
    · cases op <;> cases hc : s.pc t <;> simp_all [Pc.isIdle, Pc.pops, Pc.start]
  | @move t _ _ pc goes =>
    cases goes <;>
      exact h.frame hand (by constructor <;> simp [Sys.inserts, Sys.hands, Sys.drops, pc]) rfl rfl rfl
        (by simp [pc, Pc.adds]) (by simp [pc, Pc.pops])
  | insert pc => exact h.insert hand pc
  | entry pc => exact h.entry hand pc
  | pop pc popped => exact h.pop hand pc popped
  | take pc taken => exact h.take hand locks pc taken
  | purge pc purged => exact h.purge hand locks pc purged
  | one pc =>
    exact h.frame hand (by constructor <;> simp [Sys.inserts, Sys.hands, Sys.drops, pc]) (by simp) (by simp)
      (by simp) (by simp [pc, Pc.adds]) (by simp [pc, Pc.pops])
  | gate pc _ | flag pc _ | released pc _ _ | all pc =>
    exact h.frame hand (by constructor <;> simp [Sys.inserts, Sys.hands, Sys.drops, pc]) rfl rfl rfl
      (by simp [pc, Pc.adds]) (by simp [pc, Pc.pops])
  | callFail _ => exact h.silent hand ⟨rfl, rfl, rfl⟩ rfl (fun _ => id) fun _ _ => id
  | @fail t c f pc faults =>
    refine h.silent hand ?_ rfl (fun _ => id) fun _ _ => id
    cases faults with
    | deqMap herr => constructor <;> simp [Sys.inserts, Sys.hands, Sys.drops, pc, herr]
    | @purgeBody id _ herr =>
      obtain ⟨q, hpurge, -⟩ := (hand.inStep locks (by simp [pc, Pc.exclusive] : (s.pc t).exclusive = true)).purge id
      rw [hpurge] at herr
      cases herr
    | _ => constructor <;> simp [Sys.inserts, Sys.hands, Sys.drops, pc]

end Steps

end History

/-! ### Whole runs -/

/-- Jobs of one priority are handed out in the order in which they were inserted. -/
theorem History.handed_sublist {xs : List (Sys Tid T × Label Tid T)} {s : Sys Tid T} (h : History xs s) (p : Priority) :
    ((handed xs).filter (·.job.priority == p)).Sublist ((inserted xs).filter (·.job.priority == p)) := by
  refine KeyedList.sublist_of_subset (f := (·.iter)) ?_ (h.sorted.filter _) ?_
  · rw [List.pairwise_filter]
    refine h.order.imp fun hlt he he' => hlt ?_
    rw [eq_of_beq he, eq_of_beq he']
  · intro e he
    obtain ⟨he, hp⟩ := List.mem_filter.mp he
    exact List.mem_filter.mpr ⟨h.goneInserted e (List.mem_append_left _ he), hp⟩

/-- Map entries and list nodes in one-to-one correspondence. -/
structure Corresponds (q : MultiQueue T) : Prop where
  node : ∀ e, q.Has e → e.node ∈ q.priorityQs e.job.priority
  entry : ∀ p, ∀ n ∈ q.priorityQs p, ∃! e, q.Has e ∧ e.job.priority = p ∧ e.node = n
  nodes : ∀ p, (q.priorityQs p).Nodup
  entries : ∀ id, (q.entries id).Nodup ∧ ∀ e ∈ q.entries id, e.job.jobId = id

theorem corresponds_of_inStep {q : MultiQueue T} (h : q.InStep) : Corresponds q where
  node _ he := h.node_mem he
  entry p n hn := by
    obtain ⟨e, he, hp, hen⟩ := h.entry_mem hn
    refine ⟨e, ⟨he, hp, hen⟩, ?_⟩
    rintro e' ⟨he', -, hen'⟩
    exact h.has_inj he' he (congrArg Node.addr (hen'.trans hen.symm))
  nodes p := (h.addrs_nodup p).of_map
  entries id := ⟨(h.iters_nodup id).of_map, h.key id⟩

variable [DecidableEq Tid] [Fintype Tid] {maxPriority : Priority} {xs : List (Sys Tid T × Label Tid T)} {s : Sys Tid T}

theorem history_of_run (run : (system Tid T maxPriority).Run xs s) : History xs s := by
  induction run with
  | init =>
    constructor <;> simp [inserted, handed, dropped]
    simp [system, Has, entries, MultiQueue.new, Sys.Added]
  | step run hn ih => exact ih.effect (handOver_of_run run) (locks_of_run run) (next_effect hn)

/-- The process stops only for a priority out of range or a `Dequeue` that pops an empty list: the checks
    of the map sections pass and the iterators that `Purge` erases are valid. -/
theorem fault_of_run (run : (system Tid T maxPriority).Run xs s) {f : Fault} (hf : s.fault = some f) :
    f = .checkPriority ∨ f = .outOfRange ∨ f = .popEmpty := by
  induction run with
  | init => cases hf
  | @step xs s t l run hn ih =>
    have hnone := next_fault hn
    cases next_effect hn with
    | fail pc faults =>
      cases hf
      cases faults with
      | enqQueue _ => exact Or.inl rfl
      | oneQueue _ => exact Or.inr (Or.inl rfl)
      | deqPop herr => exact Or.inr (Or.inr (popNode_error herr).2)
      | deqMap herr =>
        obtain ⟨e, q, htake, -⟩ := (handOver_of_run run).takeEntry (locks_of_run run) pc
        rw [htake] at herr
        cases herr
      | @purgeBody id _ herr =>
        have hex : (s.pc _).exclusive = true := congrArg Pc.exclusive pc
        obtain ⟨q, hpurge, -⟩ := ((handOver_of_run run).inStep (locks_of_run run) hex).purge id
        rw [hpurge] at herr
        cases herr
    | callFail _ =>
      cases hf
      exact Or.inl rfl
    | _ => exact absurd (hnone.symm.trans hf) nofun

/-- Hand-over-hand locking keeps lists and map in step, in every state of every run of any threads. -/
theorem handOver_in_step (run : (system Tid T maxPriority).Run xs s) :
    -- A `Dequeue` that has popped a node finds the job whose own `Enqueue` inserted that node.
    (∀ t p n, s.pc t = .deqMap p n → ∃ job q, s.q.takeEntry p n.jobId = .ok (job, q) ∧ job.priority = p ∧
      ⟨job, n.addr⟩ ∈ inserted xs) ∧
    (s.fault ≠ some .checkSearch ∧ s.fault ≠ some .checkFound ∧ s.fault ≠ some .badIterator) ∧
    (∀ t, (s.pc t).exclusive = true → Corresponds s.q) ∧
    -- Every node is inserted once, and leaves by one `Dequeue` or one `Purge`, at most once.
    ((inserted xs).map (·.iter)).Nodup ∧
    ((handed xs ++ dropped xs).map (·.iter)).Nodup ∧
    (∀ e ∈ handed xs ++ dropped xs, e ∈ inserted xs) ∧
    ∀ p, ((handed xs).filter (·.job.priority == p)).Sublist ((inserted xs).filter (·.job.priority == p)) := by
  have hand := handOver_of_run run
  have locks := locks_of_run run
  have history := history_of_run run
  refine ⟨?_, ?_, ?_, ?_, history.once, history.goneInserted, history.handed_sublist⟩
  · intro t p n pc
    obtain ⟨e, q, htake, hhas, hprio, hnode, -⟩ := hand.takeEntry locks pc
    refine ⟨e.job, q, htake, hprio, ?_⟩
    rw [← hnode]
    exact history.live e (Or.inl hhas)
  · have key : ∀ f, s.fault = some f → f = .checkPriority ∨ f = .outOfRange ∨ f = .popEmpty := fun f => fault_of_run run
    refine ⟨fun hf => ?_, fun hf => ?_, fun hf => ?_⟩ <;> simpa using key _ hf
  · exact fun t ht => corresponds_of_inStep (hand.inStep locks ht)
  · rw [List.Nodup, List.pairwise_map]
    exact history.sorted.imp fun hlt => hlt.ne

/-- One thread has enqueued a job, another has popped its node and is about to look it up. -/
theorem handOver_in_step_two : ∃ xs s, (system (Fin 2) Nat 0).Run xs s ∧ s.pc 1 = .deqMap 0 ⟨0, 7⟩ ∧
    (∃ job q, s.q.takeEntry 0 7 = .ok (job, q) ∧ job.priority = 0 ∧ ⟨job, 0⟩ ∈ inserted xs) ∧
    ((handed xs ++ dropped xs).map (·.iter)).Nodup := by
  obtain ⟨xs, s, run, -, hpc⟩ := Lts.run_of_exec_any (system (Fin 2) Nat 0)
    (.call 0 (.enqueue ⟨7, 0, 0, 5⟩) :: List.replicate 5 (.step 0) ++
      .call 1 (.dequeue 0) :: List.replicate 7 (.step 1))
    (fun s => decide (s.pc 1 = .deqMap 0 ⟨0, 7⟩)) (by decide)
  have hpc := of_decide_eq_true hpc
  obtain ⟨hmap, -, -, -, honce, -⟩ := handOver_in_step run
  exact ⟨xs, s, run, hpc, hmap 1 0 ⟨0, 7⟩ hpc, honce⟩

end Dans.Threads
