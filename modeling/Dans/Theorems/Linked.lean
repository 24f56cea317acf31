import Dans.Lib.KeyedList
import Dans.MultiQueue

/-! The two copies of the content of a `MultiQueue` agree: every entry of `_value_mapper` points to one
    live node of the list of its priority, every node has its entry, and the entries of one id and
    priority stand in the order of their nodes. The invariant is stated with the operations that have
    changed a list but not yet the map, so that it holds between the two sections of a call as well. -/

namespace Dans.MultiQueue

variable {T : Type}

/-- The duplicate list of an id; empty when the map does not hold the id. -/
def entries (q : MultiQueue T) (id : JobId) : List (Entry T) := (q.valueMapper id).getD []

/-- The map holds the entry. -/
def Has (q : MultiQueue T) (e : Entry T) : Prop := e ∈ q.entries e.job.jobId

/-- The node is in the list of its priority, or a pending `Dequeue` has popped it. -/
def Out (q : MultiQueue T) (popped : Priority → Node → Prop) (p : Priority) (n : Node) : Prop :=
  n ∈ q.priorityQs p ∨ popped p n

/-- Lists and map agree up to the entries in `added`, whose `Enqueue` has inserted the node but not yet
    the entry, and the nodes in `popped`, whose `Dequeue` has not yet taken the entry. -/
structure Linked (q : MultiQueue T) (added : Entry T → Prop) (popped : Priority → Node → Prop) : Prop where
  listed : ∀ id, q.valueMapper id ≠ some []
  key : ∀ id, ∀ e ∈ q.entries id, e.job.jobId = id
  order : ∀ id, (q.entries id).Pairwise fun e e' => e.job.priority = e'.job.priority → e.iter < e'.iter
  sorted : ∀ p, (q.priorityQs p).Pairwise fun n n' => n.addr < n'.addr
  fresh : ∀ p n, q.Out popped p n → n.addr < q.nextAddr
  apart : ∀ p p' n n', q.Out popped p n → q.Out popped p' n' → n.addr = n'.addr → p = p' ∧ n = n'
  node : ∀ e, q.Has e ∨ added e → q.Out popped e.job.priority e.node
  entry : ∀ p n, q.Out popped p n → ∃ e, (q.Has e ∨ added e) ∧ e.job.priority = p ∧ e.node = n
  front : ∀ p n, popped p n → ∀ m ∈ q.priorityQs p, n.addr < m.addr
  last : ∀ e, added e → ∀ e', q.Has e' → e'.job.priority = e.job.priority → e'.iter < e.iter

/-! ### What the sections do to lists and map -/

section Sections
variable (q : MultiQueue T) (p : Priority) (job : Job T) (iter : Nat)

@[simp] theorem openGate_priorityQs : (q.openGate p).priorityQs = q.priorityQs := rfl
@[simp] theorem openGate_valueMapper : (q.openGate p).valueMapper = q.valueMapper := rfl
@[simp] theorem openGate_nextAddr : (q.openGate p).nextAddr = q.nextAddr := rfl
@[simp] theorem openGate_releaseOne : (q.openGate p).releaseOne = q.releaseOne := rfl
@[simp] theorem openGate_released : (q.openGate p).released = q.released := rfl
@[simp] theorem openGate_maxPrio : (q.openGate p).maxPrio = q.maxPrio := rfl
@[simp] theorem closeGate_priorityQs : (q.closeGate p).priorityQs = q.priorityQs := rfl
@[simp] theorem closeGate_valueMapper : (q.closeGate p).valueMapper = q.valueMapper := rfl
@[simp] theorem closeGate_nextAddr : (q.closeGate p).nextAddr = q.nextAddr := rfl
@[simp] theorem closeGate_releaseOne : (q.closeGate p).releaseOne = q.releaseOne := rfl
@[simp] theorem closeGate_released : (q.closeGate p).released = q.released := rfl
@[simp] theorem closeGate_maxPrio : (q.closeGate p).maxPrio = q.maxPrio := rfl

@[simp] theorem releaseOneAt_priorityQs : (q.releaseOneAt p).priorityQs = q.priorityQs := by
  unfold releaseOneAt
  split <;> rfl

@[simp] theorem releaseOneAt_valueMapper : (q.releaseOneAt p).valueMapper = q.valueMapper := by
  unfold releaseOneAt
  split <;> rfl

@[simp] theorem releaseOneAt_nextAddr : (q.releaseOneAt p).nextAddr = q.nextAddr := by
  unfold releaseOneAt
  split <;> rfl

@[simp] theorem releaseOneAt_maxPrio : (q.releaseOneAt p).maxPrio = q.maxPrio := by
  unfold releaseOneAt
  split <;> rfl

@[simp] theorem releaseOneAt_released : (q.releaseOneAt p).released = q.released := by
  unfold releaseOneAt
  split <;> rfl

theorem insertNode_priorityQs : (q.insertNode job).priorityQs =
    Function.update q.priorityQs job.priority (q.priorityQs job.priority ++ [⟨q.nextAddr, job.jobId⟩]) := by
  unfold insertNode
  dsimp only
  split <;> rfl

@[simp] theorem insertNode_valueMapper : (q.insertNode job).valueMapper = q.valueMapper := by
  unfold insertNode
  dsimp only
  split <;> rfl

@[simp] theorem insertNode_entries : (q.insertNode job).entries = q.entries := by
  funext id
  simp [entries]

@[simp] theorem insertNode_nextAddr : (q.insertNode job).nextAddr = q.nextAddr + 1 := by
  unfold insertNode
  dsimp only
  split <;> rfl

@[simp] theorem insertEntry_priorityQs : (q.insertEntry job iter).priorityQs = q.priorityQs := by
  unfold insertEntry
  split <;> rfl

@[simp] theorem insertEntry_nextAddr : (q.insertEntry job iter).nextAddr = q.nextAddr := by
  unfold insertEntry
  split <;> rfl

@[simp] theorem insertNode_maxPrio : (q.insertNode job).maxPrio = q.maxPrio := by
  unfold insertNode
  dsimp only
  split <;> rfl

@[simp] theorem insertEntry_maxPrio : (q.insertEntry job iter).maxPrio = q.maxPrio := by
  unfold insertEntry
  split <;> rfl

theorem insertEntry_valueMapper : (q.insertEntry job iter).valueMapper =
    Function.update q.valueMapper job.jobId (some (q.entries job.jobId ++ [⟨job, iter⟩])) := by
  unfold insertEntry entries
  split
  · next h => simp [h]
  · next h => simp [h]

theorem insertEntry_entries (id : JobId) : (q.insertEntry job iter).entries id =
    if id = job.jobId then q.entries id ++ [⟨job, iter⟩] else q.entries id := by
  unfold entries
  rw [insertEntry_valueMapper]
  by_cases h : id = job.jobId
  · subst h
    simp [entries]
  · simp [h]

end Sections

/-- Everything but lists and map is the same in both queues. -/
structure SameGates (q q' : MultiQueue T) : Prop where
  maxPrio : q'.maxPrio = q.maxPrio
  released : q'.released = q.released
  notEmpty : q'.notEmpty = q.notEmpty
  releaseOne : q'.releaseOne = q.releaseOne
  nextAddr : q'.nextAddr = q.nextAddr

theorem insertEntry_gates (q : MultiQueue T) (job : Job T) (iter : Nat) : SameGates q (q.insertEntry job iter) := by
  unfold insertEntry
  split <;> exact ⟨rfl, rfl, rfl, rfl, rfl⟩

theorem takeEntry_gates {q q' : MultiQueue T} {p : Priority} {id : JobId} {job : Job T}
    (h : q.takeEntry p id = .ok (job, q')) : SameGates q q' := by
  unfold takeEntry at h
  split at h
  · cases h
  · split at h <;> cases h
    exact ⟨rfl, rfl, rfl, rfl, rfl⟩

theorem purge_gates {q q' : MultiQueue T} {id : JobId} {count : Nat} (h : q.purge id = .ok (count, q')) :
    SameGates q q' := by
  unfold MultiQueue.purge at h
  split at h
  · cases h
    exact ⟨rfl, rfl, rfl, rfl, rfl⟩
  · split at h <;> cases h
    exact ⟨rfl, rfl, rfl, rfl, rfl⟩

theorem popNode_ok {q q' : MultiQueue T} {p : Priority} {n : Node} (h : q.popNode p = .ok (n, q')) :
    ∃ rest, q.priorityQs p = n :: rest ∧ q'.priorityQs = Function.update q.priorityQs p rest ∧
      q'.valueMapper = q.valueMapper ∧ q'.nextAddr = q.nextAddr ∧ q'.maxPrio = q.maxPrio ∧
      q'.released = q.released ∧ q'.releaseOne = q.releaseOne ∧
      q'.notEmpty = if rest = [] then q.notEmpty else Function.update q.notEmpty p true := by
  unfold popNode at h
  split at h
  · cases h
  · next m rest hq =>
    cases rest with
    | nil =>
      cases h
      exact ⟨[], hq, rfl, rfl, rfl, rfl, rfl, rfl, rfl⟩
    | cons m' rest =>
      cases h
      exact ⟨m' :: rest, hq, rfl, rfl, rfl, rfl, rfl, rfl, rfl⟩

theorem popNode_error {q : MultiQueue T} {p : Priority} {f : Fault} (h : q.popNode p = .error f) :
    q.priorityQs p = [] ∧ f = .popEmpty := by
  unfold popNode at h
  split at h
  · next hq =>
    cases h
    exact ⟨hq, rfl⟩
  · cases h

/-! ### Searching a duplicate list -/

theorem findEntry_some {p : Priority} : ∀ {dups : List (Entry T)} {e : Entry T} {rest : List (Entry T)},
    findEntry p dups = some (e, rest) → ∃ before after, dups = before ++ e :: after ∧ rest = before ++ after ∧
      e.job.priority = p ∧ ∀ x ∈ before, x.job.priority ≠ p
  | x :: dups, e, rest, h => by
    unfold findEntry at h
    split at h
    · next hx =>
      cases h
      exact ⟨[], dups, rfl, rfl, hx, by simp⟩
    · next hx =>
      obtain ⟨⟨found, left⟩, hf, heq⟩ := Option.map_eq_some_iff.mp h
      cases heq
      obtain ⟨before, after, rfl, rfl, hp, hb⟩ := findEntry_some hf
      exact ⟨x :: before, after, rfl, rfl, hp, by simpa [hx] using hb⟩

theorem findEntry_isSome {p : Priority} : ∀ {dups : List (Entry T)} {e : Entry T}, e ∈ dups → e.job.priority = p →
    ∃ found rest, findEntry p dups = some (found, rest)
  | x :: dups, e, he, hp => by
    unfold findEntry
    split
    · exact ⟨x, dups, rfl⟩
    · next hx =>
      have he' : e ∈ dups := by
        rcases List.mem_cons.mp he with rfl | he
        · exact absurd hp hx
        · exact he
      obtain ⟨found, rest, hf⟩ := findEntry_isSome he' hp
      exact ⟨found, x :: rest, by simp [hf]⟩

theorem takeEntry_ok {q q' : MultiQueue T} {p : Priority} {id : JobId} {job : Job T}
    (h : q.takeEntry p id = .ok (job, q')) :
    ∃ e before after, q.entries id = before ++ e :: after ∧ e.job = job ∧ e.job.priority = p ∧
      (∀ x ∈ before, x.job.priority ≠ p) ∧ (∀ i, q'.entries i = if i = id then before ++ after else q.entries i) ∧
      (∀ i, q.valueMapper i ≠ some [] → q'.valueMapper i ≠ some []) ∧
      q'.priorityQs = q.priorityQs ∧ q'.nextAddr = q.nextAddr := by
  unfold takeEntry at h
  split at h
  · cases h
  · next dups hdups =>
    split at h
    · cases h
    · next e rest hfind =>
      cases h
      obtain ⟨before, after, rfl, rfl, hp, hb⟩ := findEntry_some hfind
      refine ⟨e, before, after, by simp [entries, hdups], rfl, hp, hb, fun i => ?_, fun i hi => ?_, rfl, rfl⟩
      · unfold entries
        by_cases hi : i = id
        · subst hi
          by_cases hr : before ++ after = [] <;> simp [hr]
        · simp [hi]
      · by_cases hid : i = id
        · subst hid
          by_cases hr : before ++ after = [] <;> simp [hr]
        · simpa [hid] using hi

theorem dequeueTurn_priority {q q' : MultiQueue T} {p : Priority} {job : Job T}
    (h : q.dequeueTurn p = .returns q' (some job)) : job.priority = p := by
  unfold dequeueTurn at h
  dsimp only at h
  repeat' split at h
  all_goals cases h
  next htake =>
    obtain ⟨e, -, -, -, rfl, hp, -⟩ := takeEntry_ok htake
    exact hp

theorem takeEntry_isOk {q : MultiQueue T} {p : Priority} {id : JobId} {e : Entry T} (he : e ∈ q.entries id)
    (hp : e.job.priority = p) : ∃ job q', q.takeEntry p id = .ok (job, q') := by
  cases hm : q.valueMapper id with
  | none => simp [entries, hm] at he
  | some dups =>
    obtain ⟨found, rest, hf⟩ := findEntry_isSome (by simpa [entries, hm] using he) hp
    exact ⟨_, _, by simp [takeEntry, hm, hf]; exact ⟨rfl, rfl⟩⟩

/-- The loop of `Purge` erases the node of each entry, when the iterators are valid and distinct. -/
theorem purgeLoop_ok : ∀ {dups : List (Entry T)} {qs : Priority → List Node} {k : Nat},
    (∀ p, ((qs p).map (·.addr)).Nodup) → (∀ e ∈ dups, e.node ∈ qs e.job.priority) → (dups.map (·.iter)).Nodup →
    ∃ qs', purgeLoop dups qs k = .ok (qs', k + dups.length) ∧
      ∀ p, qs' p = (qs p).filter fun n => !dups.any fun e => e.job.priority = p && e.iter = n.addr
  | [], qs, k, _, _, _ => ⟨qs, rfl, fun p => by simp⟩
  | e :: dups, qs, k, hqs, hnode, hnd => by
    simp only [List.map_cons, List.nodup_cons, List.mem_map, not_exists, not_and] at hnd
    have herase : eraseNode qs e = .ok (Function.update qs e.job.priority
        ((qs e.job.priority).filter fun n => n.addr != e.iter)) := by
      have hany : (qs e.job.priority).any (·.addr == e.iter) = true :=
        List.any_eq_true.mpr ⟨e.node, hnode e List.mem_cons_self, by simp [Entry.node]⟩
      simp only [eraseNode, hany, ↓reduceIte, KeyedList.eraseP_eq_filter (hqs _)]
    -- The other entries keep their nodes: their iterators differ from the one erased.
    obtain ⟨qs', hloop, hqs'⟩ := @purgeLoop_ok dups
      (Function.update qs e.job.priority ((qs e.job.priority).filter fun n => n.addr != e.iter)) (k + 1)
      (fun p => by
        by_cases hp : p = e.job.priority
        · subst hp
          simp only [Function.update_self]
          exact (hqs _).sublist (List.filter_sublist.map _)
        · rw [Function.update_of_ne hp]
          exact hqs p)
      (fun e' he' => by
        have hmem := hnode e' (List.mem_cons_of_mem _ he')
        by_cases hp : e'.job.priority = e.job.priority
        · rw [hp] at hmem ⊢
          simp only [Function.update_self, List.mem_filter]
          exact ⟨hmem, by simpa [Entry.node] using hnd.1 e' he'⟩
        · rw [Function.update_of_ne hp]
          exact hmem)
      hnd.2
    refine ⟨qs', ?_, fun p => ?_⟩
    · rw [purgeLoop, herase]
      simp only [hloop, List.length_cons]
      congr 2
      omega
    · rw [hqs' p]
      by_cases hp : p = e.job.priority
      · subst hp
        simp only [Function.update_self, List.filter_filter]
        apply List.filter_congr
        intro n _
        rw [List.any_cons]
        by_cases hn : n.addr = e.iter
        · simp [hn]
        · have : e.iter ≠ n.addr := fun h => hn h.symm
          simp [hn, this]
      · rw [Function.update_of_ne hp]
        apply List.filter_congr
        intro n _
        have : e.job.priority ≠ p := fun h => hp h.symm
        simp [this]

namespace Linked

variable {q q' : MultiQueue T} {added : Entry T → Prop} {popped : Priority → Node → Prop}

/-- The invariant reads the lists, the map and the next node identity only. -/
theorem congr (h : Linked q added popped) (hq : q'.priorityQs = q.priorityQs)
    (hm : q'.valueMapper = q.valueMapper) (ha : q'.nextAddr = q.nextAddr) : Linked q' added popped := by
  have he : q'.entries = q.entries := by
    funext id
    unfold entries
    rw [hm]
  have hhas : ∀ e, q'.Has e ↔ q.Has e := fun e => by
    unfold Has
    rw [he]
  have hout : ∀ p n, q'.Out popped p n ↔ q.Out popped p n := fun p n => by
    unfold Out
    rw [hq]
  exact {
    listed := by rw [hm]; exact h.listed
    key := by rw [he]; exact h.key
    order := by rw [he]; exact h.order
    sorted := by rw [hq]; exact h.sorted
    fresh := by simpa only [hout, ha] using h.fresh
    apart := by simpa only [hout] using h.apart
    node := by simpa only [hout, hhas] using h.node
    entry := by simpa only [hout, hhas] using h.entry
    front := by rw [hq]; exact h.front
    last := by simpa only [hhas] using h.last }

/-- The invariant does not depend on how the pending operations are described. -/
theorem iff (h : Linked q added popped) {added' : Entry T → Prop} {popped' : Priority → Node → Prop}
    (ha : ∀ e, added' e ↔ added e) (hp : ∀ p n, popped' p n ↔ popped p n) : Linked q added' popped' := by
  have ha : added' = added := funext fun e => propext (ha e)
  have hp : popped' = popped := funext fun p => funext fun n => propext (hp p n)
  rw [ha, hp]
  exact h

theorem new {maxPriority : Priority} :
    Linked (MultiQueue.new maxPriority : MultiQueue T) (fun _ => False) fun _ _ => False where
  listed _ := by simp [MultiQueue.new]
  key _ e he := by simp [entries, MultiQueue.new] at he
  order _ := by simp [entries, MultiQueue.new]
  sorted _ := by simp [MultiQueue.new]
  fresh _ _ h := by simp [Out, MultiQueue.new] at h
  apart _ _ _ _ h := by simp [Out, MultiQueue.new] at h
  node _ h := by simp [Has, entries, MultiQueue.new] at h
  entry _ _ h := by simp [Out, MultiQueue.new] at h
  front _ _ h := h.elim
  last _ h := h.elim

theorem has_of_mem (h : Linked q added popped) {id : JobId} {e : Entry T} (he : e ∈ q.entries id) : q.Has e := by
  unfold Has
  rw [h.key id e he]
  exact he

theorem iters_nodup (h : Linked q added popped) (id : JobId) : ((q.entries id).map (·.iter)).Nodup := by
  rw [List.Nodup, List.pairwise_map]
  refine (h.order id).imp_of_mem fun {e e'} he he' hlt heq => ?_
  have hnode := h.node e (Or.inl (h.has_of_mem he))
  have hnode' := h.node e' (Or.inl (h.has_of_mem he'))
  have := hlt (h.apart _ _ _ _ hnode hnode' heq).1
  omega

theorem addrs_nodup (h : Linked q added popped) (p : Priority) : ((q.priorityQs p).map (·.addr)).Nodup := by
  rw [List.Nodup, List.pairwise_map]
  exact (h.sorted p).imp fun hlt => by omega

theorem has_inj (h : Linked q added popped) {e e' : Entry T} (he : q.Has e) (he' : q.Has e') (hi : e.iter = e'.iter) :
    e = e' := by
  have hn := (h.apart _ _ _ _ (h.node e (Or.inl he)) (h.node e' (Or.inl he')) hi).2
  have hid : e.job.jobId = e'.job.jobId := congrArg Node.jobId hn
  unfold Has at he he'
  rw [← hid] at he'
  exact List.inj_on_of_nodup_map (h.iters_nodup _) he he' hi

/-! ### The sections keep the invariant -/

theorem insertNode (h : Linked q added popped) (job : Job T) :
    Linked (q.insertNode job) (fun e => added e ∨ e = ⟨job, q.nextAddr⟩) popped := by
  have hhas : ∀ e, (q.insertNode job).Has e ↔ q.Has e := fun e => by simp [Has, entries]
  -- The new node is the one with the next address; every node from before has a smaller one.
  have hout : ∀ p n, (q.insertNode job).Out popped p n ↔
      q.Out popped p n ∨ p = job.priority ∧ n = ⟨q.nextAddr, job.jobId⟩ := fun p n => by
    unfold Out
    rw [insertNode_priorityQs]
    by_cases hp : p = job.priority
    · subst hp
      simp only [Function.update_self, List.mem_append, List.mem_singleton, true_and]
      tauto
    · simp [hp]
  refine {
    listed := by simpa using h.listed
    key := by simpa [entries] using h.key
    order := by simpa [entries] using h.order
    sorted := fun p => ?_
    fresh := fun p n hn => ?_
    apart := fun p p' n n' hn hn' heq => ?_
    node := fun e he => ?_
    entry := fun p n hn => ?_
    front := fun p n hn m hm => ?_
    last := fun e he e' he' hp => ?_ }
  · rw [insertNode_priorityQs]
    by_cases hp : p = job.priority
    · subst hp
      rw [Function.update_self, List.pairwise_append]
      refine ⟨h.sorted _, by simp, fun n hn m hm => ?_⟩
      rw [List.mem_singleton.mp hm]
      exact h.fresh _ n (Or.inl hn)
    · rw [Function.update_of_ne hp]
      exact h.sorted p
  · rw [insertNode_nextAddr]
    rcases (hout p n).mp hn with hn | ⟨-, rfl⟩
    · exact Nat.lt_succ_of_lt (h.fresh p n hn)
    · exact Nat.lt_succ_self _
  · rcases (hout p n).mp hn with hn | ⟨rfl, rfl⟩ <;> rcases (hout p' n').mp hn' with hn' | ⟨rfl, rfl⟩
    · exact h.apart p p' n n' hn hn' heq
    · exact absurd (h.fresh p n hn) (by simp [heq])
    · exact absurd (h.fresh p' n' hn') (by simp [← heq])
    · exact ⟨rfl, rfl⟩
  · rw [hout]
    rcases he with he | he | rfl
    · exact Or.inl (h.node e (Or.inl ((hhas e).mp he)))
    · exact Or.inl (h.node e (Or.inr he))
    · exact Or.inr ⟨rfl, rfl⟩
  · rcases (hout p n).mp hn with hn | ⟨rfl, rfl⟩
    · obtain ⟨e, he, hp, hnode⟩ := h.entry p n hn
      exact ⟨e, by rw [hhas]; tauto, hp, hnode⟩
    · exact ⟨⟨job, q.nextAddr⟩, Or.inr (Or.inr rfl), rfl, rfl⟩
  · rw [insertNode_priorityQs] at hm
    by_cases hp : p = job.priority
    · subst hp
      rw [Function.update_self] at hm
      rcases List.mem_append.mp hm with hm | hm
      · exact h.front _ n hn m hm
      · rw [List.mem_singleton.mp hm]
        exact h.fresh _ n (Or.inr hn)
    · rw [Function.update_of_ne hp] at hm
      exact h.front p n hn m hm
  · rw [hhas] at he'
    rcases he with he | rfl
    · exact h.last e he e' he' hp
    · exact h.fresh _ _ (h.node e' (Or.inl he'))

/-- Inserting the entry ends its `Enqueue`, if no pending one of the same priority inserted its node
    before it. -/
theorem insertEntry (h : Linked q added popped) {job : Job T} {iter : Nat} (ha : added ⟨job, iter⟩)
    (hnext : ∀ e, added e → e ≠ ⟨job, iter⟩ → e.job.priority = job.priority → iter < e.iter) :
    Linked (q.insertEntry job iter) (fun e => added e ∧ e ≠ ⟨job, iter⟩) popped := by
  have hhas : ∀ e, (q.insertEntry job iter).Has e ↔ q.Has e ∨ e = ⟨job, iter⟩ := fun e => by
    unfold Has
    rw [insertEntry_entries]
    by_cases hid : e.job.jobId = job.jobId
    · simp [hid]
    · have : e ≠ ⟨job, iter⟩ := fun he => hid (by rw [he])
      simp [hid, this]
  have hout : ∀ p n, (q.insertEntry job iter).Out popped p n ↔ q.Out popped p n := fun p n => by simp [Out]
  refine {
    listed := fun id => ?_
    key := fun id e he => ?_
    order := fun id => ?_
    sorted := by simpa using h.sorted
    fresh := by simpa only [hout, insertEntry_nextAddr] using h.fresh
    apart := by simpa only [hout] using h.apart
    node := fun e he => ?_
    entry := fun p n hn => ?_
    front := by simpa using h.front
    last := fun e he e' he' hp => ?_ }
  · rw [insertEntry_valueMapper]
    by_cases hid : id = job.jobId
    · subst hid
      simp
    · rw [Function.update_of_ne hid]
      exact h.listed id
  · rw [insertEntry_entries] at he
    split at he
    · next hid =>
      rcases List.mem_append.mp he with he | he
      · exact h.key id e he
      · rw [List.mem_singleton.mp he, hid]
    · exact h.key id e he
  · rw [insertEntry_entries]
    split
    · rw [List.pairwise_append]
      refine ⟨h.order id, by simp, fun e he e' he' hp => ?_⟩
      rw [List.mem_singleton.mp he'] at hp ⊢
      exact h.last _ ha e (h.has_of_mem he) hp
    · exact h.order id
  · rw [hout]
    rcases he with he | ⟨he, -⟩
    · rcases (hhas e).mp he with he | rfl
      · exact h.node e (Or.inl he)
      · exact h.node _ (Or.inr ha)
    · exact h.node e (Or.inr he)
  · obtain ⟨e, he, hp, hnode⟩ := h.entry p n ((hout p n).mp hn)
    refine ⟨e, ?_, hp, hnode⟩
    rw [hhas]
    tauto
  · rcases (hhas e').mp he' with he' | rfl
    · exact h.last e he.1 e' he' hp
    · exact hnext e he.1 he.2 hp.symm

theorem popNode (h : Linked q added popped) {p : Priority} {n : Node} (hpop : q.popNode p = .ok (n, q')) :
    Linked q' added fun p' m => popped p' m ∨ p' = p ∧ m = n := by
  obtain ⟨rest, hq, hq', hm, ha, -⟩ := popNode_ok hpop
  have hsorted := h.sorted p
  rw [hq, List.pairwise_cons] at hsorted
  have hhas : ∀ e, q'.Has e ↔ q.Has e := fun e => by simp [Has, entries, hm]
  have hout : ∀ p' m, q'.Out (fun p' m => popped p' m ∨ p' = p ∧ m = n) p' m ↔ q.Out popped p' m := fun p' m => by
    unfold Out
    rw [hq']
    by_cases hp : p' = p
    · subst hp
      simp only [Function.update_self, hq, List.mem_cons, true_and]
      tauto
    · simp [hp]
  refine {
    listed := by rw [hm]; exact h.listed
    key := by simpa [entries, hm] using h.key
    order := by simpa [entries, hm] using h.order
    sorted := fun p' => ?_
    fresh := by simpa only [hout, ha] using h.fresh
    apart := by simpa only [hout] using h.apart
    node := by simpa only [hout, hhas] using h.node
    entry := by simpa only [hout, hhas] using h.entry
    front := fun p' m hm' k hk => ?_
    last := by simpa only [hhas] using h.last }
  · rw [hq']
    by_cases hp : p' = p
    · subst hp
      rw [Function.update_self]
      exact hsorted.2
    · rw [Function.update_of_ne hp]
      exact h.sorted p'
  · rw [hq'] at hk
    by_cases hp : p' = p
    · subst hp
      rw [Function.update_self] at hk
      rcases hm' with hm' | ⟨-, rfl⟩
      · exact h.front p' m hm' k (by rw [hq]; exact List.mem_cons_of_mem _ hk)
      · exact hsorted.1 k hk
    · rw [Function.update_of_ne hp] at hk
      exact h.front p' m (hm'.resolve_right fun h => hp h.1) k hk

theorem takeEntry_entries (h : Linked q added popped) {p : Priority} {id : JobId} {job : Job T}
    (htake : q.takeEntry p id = .ok (job, q')) : ∃ e, q.Has e ∧ e.job = job ∧ e.job.priority = p ∧
      (∀ x ∈ q.entries id, x.job.priority = p → e.iter ≤ x.iter) ∧
      (∀ i, q'.entries i = if i = id then (q.entries i).filter (fun x => x.iter != e.iter) else q.entries i) := by
  obtain ⟨e, before, after, hent, hjob, hp, hbefore, hent', -⟩ := takeEntry_ok htake
  refine ⟨e, h.has_of_mem (show e ∈ q.entries id by rw [hent]; simp), hjob, hp, fun x hx hxp => ?_, fun i => ?_⟩
  · have hord := h.order id
    rw [hent] at hord hx
    rcases List.mem_append.mp hx with hx | hx
    · exact absurd hxp (hbefore x hx)
    · rcases List.mem_cons.mp hx with rfl | hx
      · exact Nat.le_refl _
      · exact Nat.le_of_lt ((List.pairwise_cons.mp (List.pairwise_append.mp hord).2.1).1 x hx (hp.trans hxp.symm))
  · rw [hent' i]
    split
    · next hi =>
      subst hi
      rw [hent]
      exact KeyedList.append_eq_filter (hent ▸ h.iters_nodup i)
    · rfl

theorem dropEntry (h : Linked q added popped) {p : Priority} {n : Node} (hp : popped p n) {e : Entry T}
    (he : q.Has e) (hep : e.job.priority = p) (hen : e.node = n)
    (hmap : ∀ e, added e → e.job.priority = p → e.node ≠ n)
    (hent : ∀ i, q'.entries i = if i = n.jobId then (q.entries i).filter (fun x => x.iter != e.iter) else q.entries i)
    (hlisted : ∀ i, q'.valueMapper i ≠ some []) (hq : q'.priorityQs = q.priorityQs) (ha : q'.nextAddr = q.nextAddr) :
    Linked q' added fun p' m => popped p' m ∧ ¬(p' = p ∧ m = n) := by
  have heid : e.job.jobId = n.jobId := congrArg Node.jobId hen
  have hhas : ∀ e', q'.Has e' ↔ q.Has e' ∧ e' ≠ e := fun e' => by
    unfold Has
    rw [hent]
    split
    · rw [List.mem_filter]
      refine and_congr_right fun he' => ?_
      simp only [bne_iff_ne, ne_eq]
      exact not_congr ⟨fun hi => h.has_inj he' he hi, fun heq => by rw [heq]⟩
    · next hid => exact ⟨fun he' => ⟨he', fun heq => hid (by rw [heq, heid])⟩, And.left⟩
  have hout : ∀ p' m, q'.Out (fun p' m => popped p' m ∧ ¬(p' = p ∧ m = n)) p' m ↔
      q.Out popped p' m ∧ ¬(p' = p ∧ m = n) := fun p' m => by
    unfold Out
    rw [hq]
    have : m ∈ q.priorityQs p' → ¬(p' = p ∧ m = n) := by
      rintro hm ⟨rfl, rfl⟩
      exact Nat.lt_irrefl _ (h.front _ _ hp _ hm)
    tauto
  refine {
    listed := hlisted
    key := fun id x hx => ?_
    order := fun id => ?_
    sorted := by rw [hq]; exact h.sorted
    fresh := fun p' m hm => by rw [ha]; exact h.fresh p' m ((hout p' m).mp hm).1
    apart := fun p₁ p₂ m₁ m₂ h₁ h₂ => h.apart p₁ p₂ m₁ m₂ ((hout p₁ m₁).mp h₁).1 ((hout p₂ m₂).mp h₂).1
    node := fun x hx => ?_
    entry := fun p' m hm => ?_
    front := fun p' m hm => by rw [hq]; exact h.front p' m hm.1
    last := fun x hx x' hx' => h.last x hx x' ((hhas x').mp hx').1 }
  · rw [hent] at hx
    split at hx
    · exact h.key id x (List.mem_filter.mp hx).1
    · exact h.key id x hx
  · rw [hent]
    split
    · exact (h.order id).filter _
    · exact h.order id
  · rw [hout]
    rcases hx with hx | hx
    · obtain ⟨hx, hne⟩ := (hhas x).mp hx
      refine ⟨h.node x (Or.inl hx), fun ⟨_, hxn⟩ => hne (h.has_inj hx he ?_)⟩
      exact congrArg Node.addr (hxn.trans hen.symm)
    · exact ⟨h.node x (Or.inr hx), fun ⟨hxp, hxn⟩ => hmap x hx hxp hxn⟩
  · obtain ⟨hm, hne⟩ := (hout p' m).mp hm
    obtain ⟨x, hx, hxp, hxn⟩ := h.entry p' m hm
    refine ⟨x, ?_, hxp, hxn⟩
    rw [hhas]
    rcases hx with hx | hx
    · refine Or.inl ⟨hx, ?_⟩
      rintro rfl
      exact hne ⟨hxp.symm.trans hep, hxn.symm.trans hen⟩
    · exact Or.inr hx

/-- The search for a popped node finds the entry of that node, if no other pending `Dequeue` of the
    priority popped before it and the node's own `Enqueue` has inserted its entry. -/
theorem takeEntry (h : Linked q added popped) {p : Priority} {n : Node} (hp : popped p n)
    (hfirst : ∀ m, popped p m → m ≠ n → n.addr < m.addr) (hmap : ∀ e, added e → e.job.priority = p → e.node ≠ n) :
    ∃ e q', q.takeEntry p n.jobId = .ok (e.job, q') ∧ q.Has e ∧ e.job.priority = p ∧ e.node = n ∧
      Linked q' added (fun p' m => popped p' m ∧ ¬(p' = p ∧ m = n)) ∧
      (∀ i, q'.entries i = if i = n.jobId then (q.entries i).filter (fun x => x.iter != n.addr) else q.entries i) ∧
      q'.priorityQs = q.priorityQs := by
  obtain ⟨e, hhe, hep, hen⟩ := h.entry p n (Or.inr hp)
  have hehas : q.Has e := hhe.resolve_right fun ha => hmap e ha hep hen
  have hemem : e ∈ q.entries n.jobId := by
    have heid : e.job.jobId = n.jobId := congrArg Node.jobId hen
    exact heid ▸ hehas
  obtain ⟨job, q', htake⟩ := takeEntry_isOk hemem hep
  obtain ⟨f, hfhas, rfl, hfp, hfle, hent⟩ := h.takeEntry_entries htake
  -- The entry found is not behind `e`, and every entry of the priority before `e` is gone.
  have hfe : f = e := by
    refine h.has_inj hfhas hehas ?_
    have hle := hfle e hemem hep
    have heiter : e.iter = n.addr := congrArg Node.addr hen
    rcases h.node f (Or.inl hfhas) with hin | hpop
    · have : n.addr < f.iter := h.front p n hp f.node (hfp ▸ hin)
      omega
    · by_cases hfn : f.node = n
      · rw [heiter, ← hfn]
        rfl
      · have : n.addr < f.iter := hfirst f.node (hfp ▸ hpop) hfn
        omega
  subst hfe
  obtain ⟨-, -, -, -, -, -, -, -, hlisted, hq, ha⟩ := takeEntry_ok htake
  have hiter : f.iter = n.addr := congrArg Node.addr hen
  exact ⟨f, q', htake, hfhas, hfp, hen, h.dropEntry hp hfhas hfp hen hmap hent (fun i => hlisted i (h.listed i)) hq ha,
    hiter ▸ hent, hq⟩

end Linked

/-! ### No operation pending -/

/-- Lists and map agree, and no operation is between its list section and its map section. -/
abbrev InStep (q : MultiQueue T) : Prop := Linked q (fun _ => False) fun _ _ => False

namespace InStep

variable {q q' : MultiQueue T}

theorem node_mem (h : q.InStep) {e : Entry T} (he : q.Has e) : e.node ∈ q.priorityQs e.job.priority :=
  (h.node e (Or.inl he)).resolve_right not_false

theorem entry_mem (h : q.InStep) {p : Priority} {n : Node} (hn : n ∈ q.priorityQs p) :
    ∃ e, q.Has e ∧ e.job.priority = p ∧ e.node = n := by
  obtain ⟨e, he, hp, hen⟩ := h.entry p n (Or.inl hn)
  exact ⟨e, he.resolve_right not_false, hp, hen⟩

theorem any_entry_iff (h : q.InStep) {id : JobId} {p : Priority} {n : Node} (hn : n ∈ q.priorityQs p) :
    (q.entries id).any (fun e => e.job.priority = p && e.iter = n.addr) = true ↔ n.jobId = id := by
  simp only [List.any_eq_true, Bool.and_eq_true, decide_eq_true_eq]
  constructor
  · rintro ⟨e, he, rfl, hi⟩
    have hnode := h.node_mem (h.has_of_mem he)
    have heq := (h.apart _ _ _ _ (Or.inl hnode) (Or.inl hn) hi).2
    rw [← heq]
    exact h.key id e he
  · rintro rfl
    obtain ⟨e, he, hp, hen⟩ := h.entry_mem hn
    exact ⟨e, hen ▸ he, hp, congrArg Node.addr hen⟩

/-- `Purge` finds every iterator valid, erases the nodes of its id from every list and counts them. -/
theorem purge (h : q.InStep) (id : JobId) : ∃ q', q.purge id = .ok ((q.entries id).length, q') ∧ q'.InStep ∧
    (∀ p, q'.priorityQs p = (q.priorityQs p).filter fun n => n.jobId != id) ∧
    (∀ i, q'.entries i = if i = id then [] else q.entries i) := by
  cases hm : q.valueMapper id with
  | none =>
    have hent : q.entries id = [] := by simp [entries, hm]
    refine ⟨q, by simp [MultiQueue.purge, hm, hent], h, fun p => ?_, fun i => ?_⟩
    · rw [eq_comm, List.filter_eq_self]
      intro n hn
      have hiff : (q.entries id).any _ = true ↔ _ := h.any_entry_iff hn
      simpa [hent] using hiff
    · split
      · next hi => rw [hi, hent]
      · rfl
  | some dups =>
    have hent : q.entries id = dups := by simp [entries, hm]
    obtain ⟨qs', hloop, hqs'⟩ := @purgeLoop_ok T dups q.priorityQs 0 h.addrs_nodup
      (fun e he => h.node_mem (h.has_of_mem (hent ▸ he))) (hent ▸ h.iters_nodup id)
    have hqs : ∀ p, qs' p = (q.priorityQs p).filter fun n => n.jobId != id := fun p => by
      rw [hqs' p]
      apply List.filter_congr
      intro n hn
      have hiff : (q.entries id).any _ = true ↔ _ := h.any_entry_iff hn
      rw [hent] at hiff
      rw [Bool.eq_iff_iff]
      simpa using not_congr hiff
    have hent' : ∀ i,
        MultiQueue.entries { q with priorityQs := qs', valueMapper := Function.update q.valueMapper id none } i =
        if i = id then [] else q.entries i := fun i => by
      unfold entries
      by_cases hi : i = id
      · subst hi
        simp
      · simp [hi]
    refine ⟨_, by simp [MultiQueue.purge, hm, hloop, hent], ?_, hqs, hent'⟩
    have hhas : ∀ e, MultiQueue.Has { q with priorityQs := qs', valueMapper := Function.update q.valueMapper id none } e ↔
        q.Has e ∧ e.job.jobId ≠ id := fun e => by
      unfold Has
      rw [hent']
      by_cases hi : e.job.jobId = id <;> simp [hi]
    have hmem : ∀ {p n}, n ∈ qs' p → n ∈ q.priorityQs p ∧ n.jobId ≠ id := fun {p n} hn => by
      rw [hqs p] at hn
      simpa using hn
    exact {
      listed := fun i => by
        by_cases hi : i = id
        · subst hi
          simp
        · simpa [hi] using h.listed i
      key := fun i e he => by
        rw [hent'] at he
        split at he
        · cases he
        · exact h.key i e he
      order := fun i => by
        rw [hent']
        split
        · exact List.Pairwise.nil
        · exact h.order i
      sorted := fun p => by
        show (qs' p).Pairwise _
        rw [hqs p]
        exact (h.sorted p).filter _
      fresh := fun p n hn => h.fresh p n (Or.inl (hmem (hn.resolve_right not_false)).1)
      apart := fun p p' n n' hn hn' =>
        h.apart p p' n n' (Or.inl (hmem (hn.resolve_right not_false)).1) (Or.inl (hmem (hn'.resolve_right not_false)).1)
      node := fun e he => by
        obtain ⟨he, hid⟩ := (hhas e).mp (he.resolve_right not_false)
        refine Or.inl ?_
        show e.node ∈ qs' e.job.priority
        rw [hqs]
        simpa using ⟨h.node_mem he, hid⟩
      entry := fun p n hn => by
        obtain ⟨hn, hid⟩ := hmem (hn.resolve_right not_false)
        obtain ⟨e, he, hp, hen⟩ := h.entry_mem hn
        exact ⟨e, Or.inl ((hhas e).mpr ⟨he, by rw [← hen] at hid; exact hid⟩), hp, hen⟩
      front := fun _ _ hn => hn.elim
      last := fun _ he => he.elim }

end InStep
end Dans.MultiQueue
