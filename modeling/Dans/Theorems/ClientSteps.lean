import Dans.ClientSpec
import Dans.Theorems.Refinement

/-! The client chain over its queues is a chain over lists: every step of the threads is a step of
    `Chain.Step`, because a valid queue refines its lists. -/

namespace Dans.Client
open MultiQueue

variable {Tid D : Type} {cfg : Config} {s s' : Sys Tid D}

/-- The queues are valid and have the priorities of their stages. -/
structure Sys.Sound (cfg : Config) (s : Sys Tid D) : Prop where
  connect : s.connectQ.Valid ∧ s.connectQ.maxPrio = cfg.maxPriority .connect
  request : s.requestQ.Valid ∧ s.requestQ.maxPrio = cfg.maxPriority .request
  response : s.responseQ.Valid ∧ s.responseQ.maxPrio = cfg.maxPriority .response

theorem ok_of_map {ε α β : Type} {r : Except ε α} {f : α → β} {b : β} (h : r.map f = .ok b) : ∃ a, r = .ok a ∧ b = f a := by
  cases r with
  | error e => cases h
  | ok a =>
    cases h
    exact ⟨a, rfl, rfl⟩

/-! ### One queue among the lists -/

/-- The lists `f` become `f'` because the lists of one stage become `jobs'`. -/
structure Lifts {T : Type} (stage : Stage) (e : Job T → StageJob D) (jobs jobs' : Jobs T)
    (f f' : Fifo (Stage × Priority) (StageJob D)) : Prop where
  before : ∀ p, f (stage, p) = (jobs p).map e
  after : ∀ p, f' (stage, p) = (jobs' p).map e
  other : ∀ x, x.1 ≠ stage → f' x = f x

namespace Lifts

variable {T : Type} {stage : Stage} {e : Job T → StageJob D} {jobs jobs' : Jobs T}
  {f f' : Fifo (Stage × Priority) (StageJob D)} {p : Priority} {job : Job T}

theorem same (h : Lifts stage e jobs jobs' f f') (hjobs : jobs' = jobs) : f' = f := by
  funext x
  by_cases hx : x.1 = stage
  · obtain ⟨stage', p⟩ := x
    obtain rfl : stage' = stage := hx
    rw [h.before, h.after, hjobs]
  · exact h.other x hx

theorem push (h : Lifts stage e jobs jobs' f f') (hjobs : jobs' = jobs.push p job) : f' = f.push (stage, p) (e job) := by
  funext x
  rw [Fifo.push_apply]
  by_cases hx : x.1 = stage
  · obtain ⟨stage', p'⟩ := x
    obtain rfl : stage' = stage := hx
    rw [h.before, h.after, hjobs, Fifo.push_apply]
    by_cases hp : p' = p <;> simp [hp]
  · have hne : x ≠ (stage, p) := fun heq => hx (by rw [heq])
    rw [if_neg hne, h.other x hx]

theorem pops (h : Lifts stage e jobs jobs' f f') (hjobs : jobs.Pops p job jobs') : f.Pops (stage, p) (e job) f' := by
  obtain ⟨rest, hp, rfl⟩ := hjobs
  refine ⟨rest.map e, by rw [h.before, hp]; rfl, funext fun x => ?_⟩
  rw [Function.update_apply]
  by_cases hx : x.1 = stage
  · obtain ⟨stage', p'⟩ := x
    obtain rfl : stage' = stage := hx
    rw [h.after]
    by_cases hp' : p' = p
    · simp [hp']
    · simp [hp', h.before]
  · have hne : x ≠ (stage, p) := fun heq => hx (by rw [heq])
    rw [if_neg hne, h.other x hx]

theorem drop (h : Lifts stage e jobs jobs' f f') {id : JobId} (hid : ∀ job, (e job).jobId = job.jobId)
    (hjobs : jobs' = jobs.drop (·.jobId == id)) : f' = sweepStage f stage id := by
  funext x
  unfold sweepStage
  split
  · next hx =>
    obtain ⟨stage', p⟩ := x
    obtain rfl : stage' = stage := hx
    rw [h.before, h.after, hjobs, Fifo.drop, List.filter_map]
    refine congrArg _ (List.filter_congr fun job _ => ?_)
    simp [hid]
  · next hx => exact h.other x hx

end Lifts

/-- A call on the queue of one stage leads from `s` to `s'`. -/
structure Called {T : Type} (cfg : Config) (stage : Stage) (e : Job T → StageJob D) (op : Op T) (ret : Option (Job T))
    (s s' : Sys Tid D) : Prop where
  sound : s'.Sound cfg
  inRange : op.InRange (cfg.maxPriority stage)
  chain : s'.chain = { s.chain with queued := s'.queued }
  lists : ∃ jobs jobs', op.Lists ret jobs jobs' ∧ Lifts stage e jobs jobs' s.queued s'.queued

theorem Sys.Sound.connect_called (h : s.Sound cfg) {op : Op (ConnectDataInternal D)} {q : MultiQueue (ConnectDataInternal D)}
    {ret : Option (Job (ConnectDataInternal D))} (hr : (s.connectQ.call op).result = .ok (q, ret)) :
    Called cfg .connect .connect op ret s { s with connectQ := q } := by
  obtain ⟨hp, hvalid, hmax, hjobs⟩ := h.connect.1.result hr
  refine ⟨⟨⟨hvalid, hmax.trans h.connect.2⟩, h.request, h.response⟩, h.connect.2 ▸ hp, rfl,
    _, _, hjobs, fun _ => rfl, fun _ => rfl, ?_⟩
  rintro ⟨stage, p⟩ hx
  cases stage
  · exact absurd rfl hx
  · rfl
  · rfl

theorem Sys.Sound.request_called (h : s.Sound cfg) {op : Op (RequestData D)} {q : MultiQueue (RequestData D)}
    {ret : Option (Job (RequestData D))} (hr : (s.requestQ.call op).result = .ok (q, ret)) :
    Called cfg .request .request op ret s { s with requestQ := q } := by
  obtain ⟨hp, hvalid, hmax, hjobs⟩ := h.request.1.result hr
  refine ⟨⟨h.connect, ⟨hvalid, hmax.trans h.request.2⟩, h.response⟩, h.request.2 ▸ hp, rfl,
    _, _, hjobs, fun _ => rfl, fun _ => rfl, ?_⟩
  rintro ⟨stage, p⟩ hx
  cases stage
  · rfl
  · exact absurd rfl hx
  · rfl

theorem Sys.Sound.response_called (h : s.Sound cfg) {op : Op (ResponseData D)} {q : MultiQueue (ResponseData D)}
    {ret : Option (Job (ResponseData D))} (hr : (s.responseQ.call op).result = .ok (q, ret)) :
    Called cfg .response .response op ret s { s with responseQ := q } := by
  obtain ⟨hp, hvalid, hmax, hjobs⟩ := h.response.1.result hr
  refine ⟨⟨h.connect, h.request, ⟨hvalid, hmax.trans h.response.2⟩⟩, h.response.2 ▸ hp, rfl,
    _, _, hjobs, fun _ => rfl, fun _ => rfl, ?_⟩
  rintro ⟨stage, p⟩ hx
  cases stage
  · rfl
  · rfl
  · exact absurd rfl hx

/-! ### The calls of the chain -/

theorem Called.enqueue {T : Type} {stage : Stage} {e : Job T → StageJob D} {job : Job T} {ret : Option (Job T)}
    (h : Called cfg stage e (.enqueue job) ret s s') : s'.Sound cfg ∧ (stage, job.priority) ∈ cfg.lists ∧
      s'.chain = { s.chain with queued := s.queued.push (stage, job.priority) (e job) } := by
  obtain ⟨jobs, jobs', hjobs, hlift⟩ := h.lists
  exact ⟨h.sound, Config.mem_lists.mpr h.inRange, by rw [h.chain, hlift.push hjobs]⟩

/-- A `Dequeue` hands out the head of its list, or leaves the lists as they are. -/
def Handed (stage : Stage) (p : Priority) (s s' : Sys Tid D) : Option (StageJob D) → Prop
  | none => s'.chain = s.chain
  | some j => s'.chain = { s.chain with queued := s'.queued } ∧ s.queued.Pops (stage, p) j s'.queued

theorem Called.dequeue {T : Type} {stage : Stage} {e : Job T → StageJob D} {p : Priority} {ret : Option (Job T)}
    (h : Called cfg stage e (.dequeue p) ret s s') :
    s'.Sound cfg ∧ (stage, p) ∈ cfg.lists ∧ Handed stage p s s' (ret.map e) := by
  obtain ⟨jobs, jobs', hjobs, hlift⟩ := h.lists
  refine ⟨h.sound, Config.mem_lists.mpr h.inRange, ?_⟩
  cases ret with
  | none => exact h.chain.trans (by rw [hlift.same hjobs]; rfl)
  | some job => exact ⟨h.chain, hlift.pops hjobs⟩

theorem Called.purge {T : Type} {stage : Stage} {e : Job T → StageJob D} {id : JobId} {ret : Option (Job T)}
    (h : Called cfg stage e (.purge id) ret s s') (hid : ∀ job, (e job).jobId = job.jobId) :
    s'.Sound cfg ∧ s'.chain = { s.chain with queued := sweepStage s.queued stage id } := by
  obtain ⟨jobs, jobs', hjobs, hlift⟩ := h.lists
  exact ⟨h.sound, by rw [h.chain, hlift.drop hid hjobs]⟩

theorem Sys.Sound.enqueue (h : s.Sound cfg) {j : StageJob D} (he : s.enqueue j = .ok s') :
    s'.Sound cfg ∧ (j.stage, j.priority) ∈ cfg.lists ∧
      s'.chain = { s.chain with queued := s.queued.push (j.stage, j.priority) j } := by
  cases j with
  | connect job =>
    obtain ⟨x, hr, rfl⟩ := ok_of_map he
    exact (h.connect_called hr).enqueue
  | request job =>
    obtain ⟨x, hr, rfl⟩ := ok_of_map he
    exact (h.request_called hr).enqueue
  | response job =>
    obtain ⟨x, hr, rfl⟩ := ok_of_map he
    exact (h.response_called hr).enqueue

theorem Sys.Sound.dequeue (h : s.Sound cfg) {stage : Stage} {p : Priority} {ret : Option (StageJob D)}
    (hd : s.dequeue p stage = .ok (s', ret)) :
    s'.Sound cfg ∧ (stage, p) ∈ cfg.lists ∧ Handed stage p s s' ret := by
  cases stage with
  | connect =>
    obtain ⟨x, hr, hx⟩ := ok_of_map hd
    cases hx
    exact (h.connect_called hr).dequeue
  | request =>
    obtain ⟨x, hr, hx⟩ := ok_of_map hd
    cases hx
    exact (h.request_called hr).dequeue
  | response =>
    obtain ⟨x, hr, hx⟩ := ok_of_map hd
    cases hx
    exact (h.response_called hr).dequeue

theorem Sys.Sound.purge (h : s.Sound cfg) {stage : Stage} {id : JobId} (hp : s.purge id stage = .ok s') :
    s'.Sound cfg ∧ s'.chain = { s.chain with queued := sweepStage s.queued stage id } := by
  cases stage with
  | connect =>
    obtain ⟨x, hr, rfl⟩ := ok_of_map hp
    exact (h.connect_called hr).purge fun _ => rfl
  | request =>
    obtain ⟨x, hr, rfl⟩ := ok_of_map hp
    exact (h.request_called hr).purge fun _ => rfl
  | response =>
    obtain ⟨x, hr, rfl⟩ := ok_of_map hp
    exact (h.response_called hr).purge fun _ => rfl

/-! ### Steps -/

variable [DecidableEq Tid] {t : Tid} {l : Label Tid D}

theorem next_abort (h : s.next cfg l = some s') : s.abort = none := by
  unfold Sys.next at h
  split at h
  · cases h
  · next hnone => simpa using hnone

/-- `s'` is a sound state, and a step of the chain leads to it. -/
def Advances (cfg : Config) (s s' : Sys Tid D) : Prop := s'.Sound cfg ∧ s.chain.Step cfg s'.chain

theorem Sys.Sound.goto (h : s.Sound cfg) (c : Pc D) : (s.goto t c).Sound cfg := ⟨h.connect, h.request, h.response⟩

theorem Sys.Sound.fail (h : s.Sound cfg) (a : Abort) : Advances cfg s (s.fail a) :=
  ⟨⟨h.connect, h.request, h.response⟩, .stay⟩

omit [DecidableEq Tid] in
theorem Sys.Sound.increment (h : s.Sound cfg) (i : Nat) : (s.increment i).Sound cfg := by
  unfold Sys.increment
  split
  · exact h
  · exact ⟨h.connect, h.request, h.response⟩

omit [DecidableEq Tid] in
theorem chain_increment (s : Sys Tid D) (i : Nat) : (s.increment i).chain = s.chain := by
  unfold Sys.increment
  split <;> rfl

theorem Sys.Sound.register (h : s.Sound cfg) {j : StageJob D} (hreg : Registers (s.pc t) j) :
    Advances cfg s (s.register t j) :=
  ⟨⟨h.connect, h.request, h.response⟩, .register hreg⟩

theorem Sys.Sound.work (h : s.Sound cfg) {c : Pc D} (hworks : Works s.purged (s.pc t) c) : Advances cfg s (s.goto t c) :=
  ⟨h.goto c, .work hworks⟩

theorem Sys.Sound.drop (h : s.Sound cfg) (hdrops : Drops s.purged (s.pc t)) : Advances cfg s (s.goto t .outside) :=
  ⟨h.goto _, .drop hdrops⟩

theorem Sys.Sound.dispatch (h : s.Sound cfg) (hpc : s.pc t = .outside) (job : Job (ConnectData D)) (r : Nat) :
    Advances cfg s (s.dispatch cfg t job r) := by
  unfold Sys.dispatch
  dsimp only
  split
  · exact h.fail _
  · split
    · exact h.fail _
    · exact ⟨⟨h.connect, h.request, h.response⟩,
        .dispatch (d := ⟨job, s.requests.length, _, _, 0, job.priority⟩) hpc rfl⟩

theorem Sys.Sound.duplicate (h : s.Sound cfg) {d : Dispatching D} (hpc : s.pc t = .dispatching d) :
    Advances cfg s (s.duplicate t d) := by
  unfold Sys.duplicate
  split
  · next hle =>
    cases hdup : d.duplicate with
    | none => exact h.fail _
    | some job =>
      dsimp only
      cases he : (s.goto t (.dispatching { d with i := d.i + 1, prio := d.prio + 1 })).enqueue (.connect job) with
      | error f => exact h.fail _
      | ok s' =>
        obtain ⟨hsound, hlist, hchain⟩ := (h.goto _).enqueue he
        refine ⟨hsound.increment d.i, ?_⟩
        rw [Except.map, Sys.orFail, chain_increment, hchain]
        exact .duplicate hpc hle hdup hlist
  · exact ⟨h.goto _, .dispatched hpc⟩

theorem Sys.Sound.pass (h : s.Sound cfg) {j : StageJob D} (hpc : s.pc t = .passing j) : Advances cfg s (s.pass cfg t j) := by
  unfold Sys.pass
  split
  · exact h.fail _
  · cases he : (s.goto t .outside).enqueue j with
    | error f => exact h.fail _
    | ok s' =>
      obtain ⟨hsound, hlist, hchain⟩ := (h.goto _).enqueue he
      refine ⟨hsound, ?_⟩
      rw [Sys.orFail, hchain]
      exact .pass hpc hlist

theorem Sys.Sound.sweep (h : s.Sound cfg) {stage : Stage} {id : JobId} (hpc : s.pc t = .sweeping stage id) :
    Advances cfg s (s.sweep t id stage) := by
  have key : ∀ {c : Pc D}, (c = .outside ∨ ∃ stage', c = .sweeping stage' id) →
      Advances cfg s (s.orFail ((s.goto t c).purge id stage)) := by
    intro c hc
    cases hp : (s.goto t c).purge id stage with
    | error f => exact h.fail _
    | ok s' =>
      obtain ⟨hsound, hchain⟩ := (h.goto _).purge hp
      refine ⟨hsound, ?_⟩
      rw [Sys.orFail, hchain]
      exact .sweep hpc hc
  cases stage with
  | connect => exact key (.inr ⟨_, rfl⟩)
  | request => exact key (.inr ⟨_, rfl⟩)
  | response => exact key (.inl rfl)

theorem Sys.Sound.take (h : s.Sound cfg) {stage : Stage} {p : Priority} (hn : s.take t stage p = some s') :
    Advances cfg s s' := by
  unfold Sys.take at hn
  split at hn
  · next hpc =>
    split at hn
    · cases hn
      exact h.fail _
    · next hd =>
      cases hn
      obtain ⟨hsound, -, hchain⟩ := h.dequeue hd
      have hsame : s'.chain = s.chain := hchain
      exact ⟨hsound, by rw [hsame]; exact .stay⟩
    · next s₁ j hd =>
      cases hn
      obtain ⟨hsound, hlist, hchain, hpops⟩ := h.dequeue hd
      have hgoto : (s₁.goto t (.taken j)).chain = { s₁.chain with pc := Function.update s₁.chain.pc t (.taken j) } := rfl
      refine ⟨hsound.goto _, ?_⟩
      rw [hgoto, hchain]
      exact .take hpc hpops hlist
  · cases hn

theorem Sys.Sound.step (h : s.Sound cfg) (hn : s.step cfg t = some s') : Advances cfg s s' := by
  unfold Sys.step at hn
  split at hn
  · next d hpc =>
    cases hn
    exact h.duplicate hpc
  · next j hpc =>
    cases hn
    split
    · next hset => exact h.drop (hpc ▸ .taken hset)
    · next hset => exact h.work (hpc ▸ .act (Bool.eq_false_of_not_eq_true hset))
  · next job hpc =>
    cases hn
    exact h.register (hpc ▸ .connect)
  · next job hpc =>
    split at hn
    · next hobject =>
      cases hn
      exact h.work (hpc ▸ .header job.jobData rfl hobject)
    · cases hn
  · next job hpc =>
    cases hn
    exact h.register (hpc ▸ .request)
  · next job closed hpc =>
    split at hn
    · next hcomplete =>
      cases hn
      exact h.work (hpc ▸ .complete hcomplete)
    · cases hn
      cases closed
      · exact h.work (hpc ▸ .monitor)
      · exact h.drop (hpc ▸ .closed)
  · next job hpc =>
    split at hn
    · next hset =>
      cases hn
      exact h.drop (hpc ▸ .late hset)
    · next hset =>
      cases hn
      exact ⟨⟨h.connect, h.request, h.response⟩, .win hpc (Bool.eq_false_of_not_eq_true hset)⟩
  · next job hpc =>
    cases hn
    split <;> exact ⟨⟨h.connect, h.request, h.response⟩, .deliver hpc⟩
  · next stage id hpc =>
    cases hn
    exact h.sweep hpc
  · next job hpc =>
    cases hn
    exact h.register (hpc ▸ .response)
  · next j soc hpc =>
    cases hn
    unfold Sys.passOn
    split
    · next htest => exact h.work (hpc ▸ .pass htest.1)
    · exact h.drop (hpc ▸ .called)
  · next j hpc =>
    cases hn
    exact h.pass hpc
  all_goals cases hn

theorem Sys.Sound.send (h : s.Sound cfg) {complete : Bool} (hn : s.send t complete = some s') : Advances cfg s s' := by
  unfold Sys.send at hn
  split at hn
  · next job hpc =>
    cases hn
    split
    · exact h.work (hpc ▸ .send)
    · exact h.fail _
  · cases hn

theorem Sys.Sound.readHeader (h : s.Sound cfg) {header : Option Protocol} (hn : s.readHeader t header = some s') :
    Advances cfg s s' := by
  unfold Sys.readHeader at hn
  split at hn
  · next job hpc =>
    split at hn
    · cases hn
    · split at hn
      · cases hn
        exact h.fail _
      · split at hn
        · cases hn
          exact h.fail _
        · split at hn <;> cases hn
          · exact h.fail _
          · exact h.work (hpc ▸ .header _ rfl rfl)
  · cases hn

theorem Sys.Sound.read (h : s.Sound cfg) {result : ReadResult} (hn : s.read t result = some s') : Advances cfg s s' := by
  unfold Sys.read at hn
  split at hn
  · next job hpc =>
    split at hn
    · cases hn
      exact h.fail _
    · cases result with
      | bytes data =>
        simp only at hn
        split at hn <;> cases hn
        exact h.work (hpc ▸ .read data)
      | wouldBlock =>
        cases hn
        exact h.work (hpc ▸ .stop false)
      | error | closed =>
        cases hn
        exact h.work (hpc ▸ .stop true)
  · cases hn

theorem Sys.Sound.fire (h : s.Sound cfg) {i : Nat} {soc : Int} {ready : ReadyFor} (hn : s.fire t i soc ready = some s') :
    Advances cfg s s' := by
  unfold Sys.fire at hn
  split at hn
  · next j hpc hreg =>
    dsimp only at hn
    split at hn
    · cases hn
      exact ⟨⟨h.connect, h.request, h.response⟩, .lose⟩
    · split at hn <;> cases hn
      · exact ⟨⟨h.connect, h.request, h.response⟩, .fire soc hpc hreg⟩
      · exact ⟨⟨h.connect, h.request, h.response⟩, .lose⟩
  · cases hn

/-- The queues stay sound, and every step is a step of the chain. -/
theorem next_chain (h : s.Sound cfg) (hn : s.next cfg l = some s') : Advances cfg s s' := by
  unfold Sys.next at hn
  split at hn
  · cases hn
  · cases l with
    | dispatch t job r =>
      simp only at hn
      split at hn <;> cases hn
      exact h.dispatch (by assumption) job r
    | take t stage p => exact h.take hn
    | fire t i soc ready => exact h.fire hn
    | step t => exact h.step hn
    | send t complete => exact h.send hn
    | readHeader t header => exact h.readHeader hn
    | read t result => exact h.read hn

end Dans.Client
