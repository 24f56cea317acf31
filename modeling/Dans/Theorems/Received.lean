import Dans.Lib.Ghost
import Dans.Lib.MachineInt
import Dans.Theorems.Waste

/-! What the client has received for each duplicate: the header and the bytes behind it, as a history variable over
    the reads of a run. Every job of a duplicate, wherever it is, holds the object that these bytes make, so what is
    in the object does not depend on the reads and re-dispatches by which the bytes came. -/

namespace Dans

/-! ### The object that a header and bytes make -/

namespace Protocol

variable (header : Protocol) (bytes : List UInt8)

/-- The fields are of type `int`. -/
structure Ints : Prop where
  startIdx : MachineInt.InInt header.startIdx
  sizeBytes : MachineInt.InInt header.sizeBytes

instance : Decidable header.Ints :=
  decidable_of_iff (MachineInt.InInt header.startIdx ∧ MachineInt.InInt header.sizeBytes)
    ⟨fun h => ⟨h.1, h.2⟩, fun h => ⟨h.1, h.2⟩⟩

/-- The start index lies in the object or right behind it. -/
def Fits : Prop := 0 ≤ header.startIdx ∧ header.startIdx ≤ header.sizeBytes

instance : Decidable header.Fits := inferInstanceAs (Decidable (0 ≤ header.startIdx ∧ header.startIdx ≤ header.sizeBytes))

/-- How many bytes the header announces. -/
def announced : Nat := header.sizeBytes.toNat - header.startIdx.toNat

/-- The object with `bytes` from the start index on and zeros everywhere else. -/
def filled : List UInt8 :=
  List.replicate header.startIdx.toNat 0 ++ bytes ++ List.replicate (header.announced - bytes.length) 0

/-- The object that a stream makes: zeros up to the start index, and then the announced bytes. -/
def object (stream : List UInt8) : List UInt8 := List.replicate header.startIdx.toNat 0 ++ stream.take header.announced

variable {header bytes}

theorem length_filled (hfits : header.Fits) (hle : bytes.length ≤ header.announced) :
    (header.filled bytes).length = header.sizeBytes.toNat := by
  obtain ⟨hlow, hhigh⟩ := hfits
  simp only [filled, announced, List.length_append, List.length_replicate] at hle ⊢
  omega

theorem filled_nil (hfits : header.Fits) : header.filled [] = List.replicate header.sizeBytes.toNat 0 := by
  obtain ⟨hlow, hhigh⟩ := hfits
  have hsize : header.startIdx.toNat + header.announced = header.sizeBytes.toNat := by
    unfold announced
    omega
  simp [filled, hsize]

/-- The next bytes go over the first zeros behind those that are there. -/
theorem filled_append (data : List UInt8) :
    header.filled (bytes ++ data) = (header.filled bytes).take (header.startIdx.toNat + bytes.length) ++ data ++
      (header.filled bytes).drop (header.startIdx.toNat + bytes.length + data.length) := by
  have hlen : (List.replicate header.startIdx.toNat 0 ++ bytes).length = header.startIdx.toNat + bytes.length := by simp
  unfold filled
  rw [List.take_append_of_le_length (by omega), List.take_of_length_le (by omega), ← List.drop_drop,
    List.drop_append_of_le_length (by omega), List.drop_of_length_le (l := _ ++ bytes) (by omega), List.nil_append,
    List.drop_replicate]
  simp [Nat.sub_sub]

theorem filled_of_announced (hlen : bytes.length = header.announced) : header.filled bytes = header.object bytes := by
  rw [filled, object, List.take_of_length_le (Nat.le_of_eq hlen), hlen, Nat.sub_self, List.replicate_zero, List.append_nil]

end Protocol

/-- What was received for a duplicate that asks for an object: the header and the bytes behind it. -/
structure Reception where
  objectId : Int
  header : Protocol
  bytes : List UInt8
  deriving DecidableEq

/-- The server accepts the request for the object. -/
def Reception.accepted (r : Reception) : Bool := r.header.type == Protocol.REQUEST_ACCEPT && r.header.objectId == r.objectId

theorem Reception.accepted_iff (r : Reception) :
    r.accepted = true ↔ r.header.type = Protocol.REQUEST_ACCEPT ∧ r.header.objectId = r.objectId := by
  rw [accepted, Bool.and_eq_true, beq_iff_eq, beq_iff_eq]

namespace ResponseData

variable {D : Type} {d : ResponseData D} {r : Reception} {header : Protocol} {data : List UInt8}

/-- The data of a job are those that what was received for it makes. With a start index that does not fit, the index
    lies behind the object. -/
def Holds (d : ResponseData D) : Option Reception → Prop
  | none => d.object = none
  | some r => d.objectId = r.objectId ∧ d.object.isSome = true ∧ (r.header.Ints →
      if r.header.Fits then d.object = some (r.header.filled r.bytes) ∧
        d.index = r.header.startIdx.toNat + r.bytes.length ∧ r.bytes.length ≤ r.header.announced
      else d.size < d.index)

theorem Holds.received {x : Option Reception} (h : d.Holds x) (hobject : d.object.isSome = true) : ∃ r, x = some r := by
  cases x with
  | none =>
    rw [show d.object = none from h] at hobject
    cases hobject
  | some r => exact ⟨r, rfl⟩

theorem Holds.fits (h : d.Holds (some r)) (hints : r.header.Ints) (hfits : r.header.Fits) :
    d.object = some (r.header.filled r.bytes) ∧ d.index = r.header.startIdx.toNat + r.bytes.length ∧
      r.bytes.length ≤ r.header.announced ∧ d.size = r.header.sizeBytes.toNat := by
  have hdata := h.2.2 hints
  rw [if_pos hfits] at hdata
  obtain ⟨hobject, hindex, hle⟩ := hdata
  exact ⟨hobject, hindex, hle, by rw [size, hobject]; exact Protocol.length_filled hfits hle⟩

theorem Holds.behind (h : d.Holds (some r)) (hints : r.header.Ints) (hfits : ¬r.header.Fits) : d.size < d.index := by
  have hdata := h.2.2 hints
  rwa [if_neg hfits] at hdata

theorem Holds.begin (hpos : 0 < header.sizeBytes) : (d.begin header).Holds (some ⟨d.objectId, header, []⟩) := by
  refine ⟨rfl, rfl, fun hints => ?_⟩
  dsimp only at hints ⊢
  obtain ⟨⟨hlow, hhigh⟩, -, hsize⟩ := hints
  split
  · next hfits =>
    obtain ⟨hstart, -⟩ := id hfits
    refine ⟨congrArg some (Protocol.filled_nil hfits).symm, ?_, Nat.zero_le _⟩
    simp only [ResponseData.begin, toUnsigned, List.length_nil]
    omega
  · next hfits =>
    simp only [ResponseData.begin, ResponseData.size, toUnsigned, Option.getD_some, List.length_replicate]
    simp only [Protocol.Fits] at hfits
    omega

/-- A read of at most as many bytes as there is room for. -/
theorem Holds.store (h : d.Holds (some r)) (hindex : d.index ≤ d.size) (hle : data.length ≤ d.size - d.index) :
    (d.store data).Holds (some { r with bytes := r.bytes ++ data }) := by
  refine ⟨h.1, by simpa [ResponseData.store] using h.2.1, fun hints => ?_⟩
  dsimp only at hints ⊢
  split
  · next hfits =>
    obtain ⟨hobject, hi, hbytes, hsize⟩ := h.fits hints hfits
    obtain ⟨-, -, hmax⟩ := hints
    have hroom : r.header.announced = r.header.sizeBytes.toNat - r.header.startIdx.toNat := rfl
    refine ⟨?_, ?_, ?_⟩
    · simp only [ResponseData.store, hobject, hi, Option.map_some, Protocol.filled_append]
    · simp only [ResponseData.store, List.length_append]
      omega
    · rw [List.length_append]
      omega
  · next hfits =>
    have hbehind := h.behind hints hfits
    omega

/-- An object is complete when the bytes that the header announces are there. -/
theorem Holds.complete_iff (h : d.Holds (some r)) (hints : r.header.Ints) :
    d.complete = true ↔ r.header.Fits ∧ r.bytes.length = r.header.announced := by
  rw [complete, beq_iff_eq]
  by_cases hfits : r.header.Fits
  · obtain ⟨-, hindex, hle, hsize⟩ := h.fits hints hfits
    have hannounced : r.header.announced = r.header.sizeBytes.toNat - r.header.startIdx.toNat := rfl
    obtain ⟨hlow, hhigh⟩ := id hfits
    rw [hindex, hsize]
    exact ⟨fun heq => ⟨hfits, by omega⟩, fun hlen => by omega⟩
  · have hbehind := h.behind hints hfits
    exact ⟨fun heq => by omega, fun hlen => absurd hlen.1 hfits⟩

end ResponseData

namespace Client
open Tally

variable {Tid D : Type} {cfg : Config}

/-! ### What a run has received -/

/-- A step that reads a header or bytes for a duplicate adds them to what was received for it. -/
def receive (g : Duplicate → Option Reception) (s : Sys Tid D) (l : Label Tid D) : Duplicate → Option Reception :=
  match l with
  | .readHeader t (some header) =>
    match s.pc t with
    | .acting (.response job) =>
      if 0 < header.sizeBytes then
        Function.update g (StageJob.response job).key (some ⟨job.jobData.objectId, header, []⟩)
      else g
    | _ => g
  | .read t (.bytes data) =>
    match s.pc t with
    | .reading job =>
      if job.jobData.index ≤ job.jobData.size then
        Function.update g (StageJob.response job).key
          ((g (StageJob.response job).key).map fun r => { r with bytes := r.bytes ++ data })
      else g
    | _ => g
  | _ => g

/-- What the steps of a run have received for each duplicate. -/
def received (xs : List (Sys Tid D × Label Tid D)) : Duplicate → Option Reception := Lts.history receive (fun _ => none) xs

variable {s s' : Sys Tid D} {l : Label Tid D} {t : Tid}

theorem receive_cases (g : Duplicate → Option Reception) (s : Sys Tid D) (l : Label Tid D) (k : Duplicate) :
    receive g s l k = g k ∨
    (∃ t job header, l = .readHeader t (some header) ∧ s.pc t = .acting (.response job) ∧
      (StageJob.response job).key = k ∧ receive g s l k = some ⟨job.jobData.objectId, header, []⟩) ∨
    ∃ t job data, l = .read t (.bytes data) ∧ s.pc t = .reading job ∧ (StageJob.response job).key = k ∧
      receive g s l k = (g k).map fun r => { r with bytes := r.bytes ++ data } := by
  cases l with
  | readHeader t header =>
    cases header with
    | none => exact Or.inl rfl
    | some header =>
      cases hpc : s.pc t with
      | acting j =>
        cases j with
        | response job =>
          by_cases hk : 0 < header.sizeBytes ∧ (StageJob.response job).key = k
          · obtain ⟨hpos, rfl⟩ := hk
            exact Or.inr (Or.inl ⟨t, job, header, rfl, hpc, rfl, by simp [receive, hpc, hpos]⟩)
          · refine Or.inl ?_
            simp only [receive, hpc]
            split
            · next hpos => rw [Function.update_of_ne fun heq => hk ⟨hpos, heq.symm⟩]
            · rfl
        | _ => exact Or.inl (by simp only [receive, hpc])
      | _ => exact Or.inl (by simp only [receive, hpc])
  | read t result =>
    cases result with
    | bytes data =>
      cases hpc : s.pc t with
      | reading job =>
        by_cases hk : job.jobData.index ≤ job.jobData.size ∧ (StageJob.response job).key = k
        · obtain ⟨hinside, rfl⟩ := hk
          exact Or.inr (Or.inr ⟨t, job, data, rfl, hpc, rfl, by simp [receive, hpc, hinside]⟩)
        · refine Or.inl ?_
          simp only [receive, hpc]
          split
          · next hinside => rw [Function.update_of_ne fun heq => hk ⟨hinside, heq.symm⟩]
          · rfl
      | _ => exact Or.inl (by simp only [receive, hpc])
    | wouldBlock | error | closed => exact Or.inl rfl
  | dispatch _ _ _ | take _ _ _ | fire _ _ _ _ | step _ | send _ _ => exact Or.inl rfl

/-- Only a job with its object brings a thread into the loop of reads without a read. -/
def Quiet (s s' : Sys Tid D) : Prop :=
  ∀ t job, s'.pc t = .reading job → s.pc t = .reading job ∨ s.pc t = .acting (.response job)

variable [DecidableEq Tid]

/-- How a step that leads to `s'` changes what was received: by a header, by bytes, or not at all; in the last case a
    thread in the loop of reads was there before, or has its job back from the queue. -/
inductive Hears (g : Duplicate → Option Reception) (s s' : Sys Tid D) : (Duplicate → Option Reception) → Prop where
  | header {t : Tid} {job : Job (ResponseData D)} {header : Protocol} (pc : s.pc t = .acting (.response job))
      (fresh : job.jobData.object = none) (pos : 0 < header.sizeBytes)
      (goto : s' = s.goto t (.reading { job with jobData := job.jobData.begin header })) :
      Hears g s s' (Function.update g (StageJob.response job).key (some ⟨job.jobData.objectId, header, []⟩))
  | bytes {t : Tid} {job : Job (ResponseData D)} {data : List UInt8} (pc : s.pc t = .reading job)
      (inside : job.jobData.index ≤ job.jobData.size) (le : data.length ≤ job.jobData.size - job.jobData.index)
      (goto : s' = s.goto t (.reading { job with jobData := job.jobData.store data })) :
      Hears g s s' (Function.update g (StageJob.response job).key
        ((g (StageJob.response job).key).map fun r => { r with bytes := r.bytes ++ data }))
  | silent (quiet : Quiet s s') : Hears g s s' g

theorem quiet_update {u : Tid} {c : Pc D} (hpc : s'.pc = Function.update s.pc u c) (hc : ∀ job, c ≠ .reading job) :
    Quiet s s' := by
  intro t job h
  rw [hpc, Function.update_apply] at h
  split at h
  · exact absurd h (hc job)
  · exact Or.inl h

omit [DecidableEq Tid] in
theorem quiet_same (hpc : s'.pc = s.pc) : Quiet s s' := fun _ _ h => Or.inl (hpc ▸ h)

theorem quiet_orFail {u : Tid} {c : Pc D} {r : Except Fault (Sys Tid D)} (hc : ∀ job, c ≠ .reading job)
    (hpc : ∀ s', r = .ok s' → s'.pc = Function.update s.pc u c) : Quiet s (s.orFail r) := by
  cases r with
  | error f => exact quiet_same rfl
  | ok s' => exact quiet_update (hpc s' rfl) hc

theorem step_quiet (h : s.step cfg t = some s') : Quiet s s' := by
  unfold Sys.step at h
  split at h
  · next d hpc =>
    cases h
    unfold Sys.duplicate
    split
    · split
      · exact quiet_same rfl
      · exact quiet_orFail (c := .dispatching _) (fun _ => by simp) fun _ he => pc_of_duplicate he
    · exact quiet_update rfl fun _ => by simp
  · next j hpc =>
    cases h
    split <;> exact quiet_update rfl fun _ => by simp
  · cases h
    exact quiet_update rfl fun _ => by simp
  · next job hpc =>
    split at h
    · cases h
      intro u job' hu
      simp only [Sys.goto] at hu
      rw [Function.update_apply] at hu
      split at hu
      · next heq =>
        cases hu
        exact Or.inr (heq ▸ hpc)
      · exact Or.inl hu
    · cases h
  · cases h
    exact quiet_update rfl fun _ => by simp
  · next job closed hpc =>
    split at h
    · cases h
      exact quiet_update rfl fun _ => by simp
    · cases h
      cases closed <;> exact quiet_update rfl fun _ => by simp
  · next job hpc =>
    split at h <;> cases h <;> exact quiet_update rfl fun _ => by simp
  · cases h
    split <;> exact quiet_update rfl fun _ => by simp
  · next stage id hpc =>
    cases h
    cases stage with
    | connect | request => exact quiet_orFail (c := .sweeping _ _) (fun _ => by simp) fun _ hp => pc_of_purge hp
    | response => exact quiet_orFail (c := .outside) (fun _ => by simp) fun _ hp => pc_of_purge hp
  · cases h
    exact quiet_update rfl fun _ => by simp
  · next j soc hpc =>
    cases h
    unfold Sys.passOn
    split <;> exact quiet_update rfl fun _ => by simp
  · cases h
    unfold Sys.pass
    split
    · exact quiet_same rfl
    · exact quiet_orFail (c := .outside) (fun _ => by simp) fun _ he => pc_of_enqueue he
  all_goals cases h

theorem header_hears {header : Option Protocol} (g : Duplicate → Option Reception) (h : s.readHeader t header = some s') :
    Hears g s s' (receive g s (.readHeader t header)) := by
  unfold Sys.readHeader at h
  split at h
  · next job hpc =>
    split at h
    · cases h
    · next hobject =>
      cases header with
      | none =>
        cases h
        exact .silent (quiet_same rfl)
      | some header =>
        simp only [receive, hpc] at h ⊢
        split at h
        · next hneg =>
          cases h
          rw [if_neg (by omega)]
          exact .silent (quiet_same rfl)
        · split at h
          · next hzero =>
            cases h
            rw [if_neg (by omega)]
            exact .silent (quiet_same rfl)
          · cases h
            rw [if_pos (by omega)]
            exact .header hpc (by simpa using hobject) (by omega) rfl
  · cases h

theorem read_hears {result : ReadResult} (g : Duplicate → Option Reception) (h : s.read t result = some s') :
    Hears g s s' (receive g s (.read t result)) := by
  unfold Sys.read at h
  split at h
  · next job hpc =>
    split at h
    · next hbehind =>
      cases h
      have hsame : receive g s (.read t result) = g := by
        cases result <;> simp [receive, hpc, Nat.not_le_of_lt hbehind]
      rw [hsame]
      exact .silent (quiet_same rfl)
    · next hinside =>
      have hle := Nat.le_of_not_lt hinside
      cases result with
      | bytes data =>
        simp only [receive, hpc, hle, ↓reduceIte] at h ⊢
        split at h <;> cases h
        next hdata => exact .bytes hpc hle hdata.2 rfl
      | wouldBlock | error | closed =>
        cases h
        exact .silent (quiet_update rfl fun _ => by simp)
  · cases h

theorem next_hears (g : Duplicate → Option Reception) (h : s.next cfg l = some s') : Hears g s s' (receive g s l) := by
  unfold Sys.next at h
  split at h
  · cases h
  · cases l with
    | step t => exact .silent (step_quiet h)
    | readHeader t header => exact header_hears g h
    | read t result => exact read_hears g h
    | dispatch t job r =>
      dsimp only at h
      split at h <;> cases h
      refine .silent ?_
      unfold Sys.dispatch
      dsimp only
      split
      · exact quiet_same rfl
      · split
        · exact quiet_same rfl
        · exact quiet_update rfl fun _ => by simp
    | take t stage prio =>
      refine .silent ?_
      simp only [Sys.take] at h
      split at h
      · split at h
        · cases h
          exact quiet_same rfl
        · next hd =>
          cases h
          exact quiet_same (pc_of_dequeue hd)
        · next s₁ j hd =>
          cases h
          refine quiet_update (u := t) (c := .taken j) ?_ fun _ => by simp
          rw [← pc_of_dequeue hd]
          rfl
      · cases h
    | fire t i soc ready =>
      refine .silent ?_
      simp only [Sys.fire] at h
      split at h
      · split at h
        · cases h
          exact quiet_same rfl
        · split at h <;> cases h
          · exact quiet_update rfl fun _ => by simp
          · exact quiet_same rfl
      · cases h
    | send t complete =>
      refine .silent ?_
      simp only [Sys.send] at h
      split at h
      · cases h
        split
        · exact quiet_update rfl fun _ => by simp
        · exact quiet_same rfl
      · cases h

/-! ### Where the jobs are -/

variable {c c' : Chain Tid D} {j : StageJob D}

/-- The job is in a queue, with the reactor or with a thread. -/
def Chain.Has (c : Chain Tid D) (j : StageJob D) : Prop :=
  (∃ x, j ∈ c.queued x) ∨ j ∈ c.registered ∨ ∃ t, (c.pc t).job = some j

/-- The job holds what was received for it; before the last stage that is nothing. -/
def Knows (j : StageJob D) (x : Option Reception) : Prop :=
  match j with
  | .response job => job.jobData.Holds x
  | _ => x = none

theorem Knows.forward {x : Option Reception} (h : Knows j x) (soc : Int) : Knows (j.forward soc) x := by
  cases j with
  | connect job => exact h
  | request job =>
    obtain rfl : x = none := h
    rfl
  | response job => exact h

theorem Works.knows {purged : Nat → Bool} {p p' : Pc D} (h : Works purged p p')
    (quiet : ∀ job, p' = .reading job → p = .reading job ∨ p = .acting (.response job)) :
    ∃ j j', p.job = some j ∧ p'.job = some j' ∧ j'.key = j.key ∧ ∀ x, Knows j x → Knows j' x := by
  cases h with
  | header data same _ =>
    rcases quiet _ rfl with hpc | hpc
    · cases hpc
    · injection hpc with hjob
      exact ⟨_, _, rfl, rfl, congrArg StageJob.key hjob.symm, fun x hx => hjob ▸ hx⟩
  | read bytes =>
    rcases quiet _ rfl with hpc | hpc
    · injection hpc with hjob
      exact ⟨_, _, rfl, rfl, rfl, fun x hx => hjob ▸ hx⟩
    · cases hpc
  | pass _ => exact ⟨_, _, rfl, rfl, StageJob.forward_key _ _, fun _ hx => hx.forward _⟩
  | send => exact ⟨_, _, rfl, rfl, rfl, fun _ hx => hx⟩
  | act _ | stop _ | complete _ | monitor => exact ⟨_, _, rfl, rfl, rfl, fun _ hx => hx⟩

/-- A job after a step without reads comes from one that held the same, or the dispatcher has made it. -/
theorem Chain.Step.has (hs : c.Step cfg c')
    (quiet : ∀ t job, c'.pc t = .reading job → c.pc t = .reading job ∨ c.pc t = .acting (.response job))
    {j' : StageJob D} (h : c'.Has j') : (∃ j, c.Has j ∧ j'.key = j.key ∧ ∀ x, Knows j x → Knows j' x) ∨
      ∃ t d job, c.pc t = .dispatching d ∧ d.prio ≤ d.maxPrio ∧ d.duplicate = some job ∧ j' = .connect job := by
  have same : c.Has j' → ∃ j, c.Has j ∧ j'.key = j.key ∧ ∀ x, Knows j x → Knows j' x :=
    fun hj => ⟨j', hj, rfl, fun _ hx => hx⟩
  have thread : ∀ {t : Tid} {p : Pc D}, (∀ j, p.job = some j → c.Has j) →
      ((∃ x, j' ∈ c.queued x) ∨ j' ∈ c.registered ∨ ∃ u, (Function.update c.pc t p u).job = some j') → c.Has j' := by
    rintro t p hp (hq | hr | ⟨u, hu⟩)
    · exact Or.inl hq
    · exact Or.inr (Or.inl hr)
    · rw [Function.update_apply] at hu
      split at hu
      · exact hp j' hu
      · exact Or.inr (Or.inr ⟨u, hu⟩)
  cases hs with
  | stay => exact Or.inl (same h)
  | dispatch _ _ | dispatched _ | drop _ => exact Or.inl (same (thread (by simp [Pc.job]) h))
  | @duplicate t d job pc le dup list =>
    rcases h with ⟨x, hx⟩ | hrest
    · dsimp only at hx
      rw [Fifo.push_apply] at hx
      split at hx
      · rcases List.mem_append.mp hx with hx | hx
        · exact Or.inl (same (Or.inl ⟨_, hx⟩))
        · exact Or.inr ⟨t, d, job, pc, le, dup, List.mem_singleton.mp hx⟩
      · exact Or.inl (same (Or.inl ⟨_, hx⟩))
    · exact Or.inl (same (thread (by simp [Pc.job]) (Or.inr hrest)))
  | @take t stage prio j queued pc pops list =>
    obtain ⟨hj, hqueued⟩ := Fifo.All.pops (P := fun j => c.Has j) (fun x j hx => Or.inl ⟨x, hx⟩) pops
    refine Or.inl (same ?_)
    rcases h with ⟨x, hx⟩ | hrest
    · exact hqueued x j' hx
    · exact thread (fun j hp => by cases hp; exact hj) (Or.inr hrest)
  | @work t p works =>
    obtain ⟨j, j₁, hj, hj₁, hkey, hknows⟩ := works.knows fun job hp => quiet t job (by simpa using hp)
    rcases h with hq | hr | ⟨u, hu⟩
    · exact Or.inl (same (Or.inl hq))
    · exact Or.inl (same (Or.inr (Or.inl hr)))
    · dsimp only at hu
      rw [Function.update_apply] at hu
      split at hu
      · rw [hj₁] at hu
        cases hu
        exact Or.inl ⟨j, Or.inr (Or.inr ⟨t, hj⟩), hkey, hknows⟩
      · exact Or.inl (same (Or.inr (Or.inr ⟨u, hu⟩)))
  | @register t j registers =>
    refine Or.inl (same ?_)
    rcases h with hq | hr | hrest
    · exact Or.inl hq
    · rcases List.mem_append.mp hr with hr | hr
      · exact Or.inr (Or.inl hr)
      · rw [List.mem_singleton.mp hr]
        exact Or.inr (Or.inr ⟨t, registers.job⟩)
    · exact thread (by simp [Pc.job]) (Or.inr (Or.inr hrest))
  | @fire t i j soc pc reg =>
    refine Or.inl (same ?_)
    rcases h with hq | hr | hrest
    · exact Or.inl hq
    · exact Or.inr (Or.inl (List.mem_of_mem_eraseIdx hr))
    · exact thread (fun j₁ hp => by cases hp; exact Or.inr (Or.inl (List.mem_of_getElem? reg))) (Or.inr (Or.inr hrest))
  | lose =>
    refine Or.inl (same ?_)
    rcases h with hq | hr | hrest
    · exact Or.inl hq
    · exact Or.inr (Or.inl (List.mem_of_mem_eraseIdx hr))
    · exact Or.inr (Or.inr hrest)
  | @win t job pc _ =>
    exact Or.inl (same (thread (fun j₁ hp => Or.inr (Or.inr ⟨t, by rw [pc]; exact hp⟩)) h))
  | deliver _ => exact Or.inl (same (thread (by simp [Pc.job]) h))
  | @sweep t stage jobId p pc next =>
    refine Or.inl (same ?_)
    rcases h with ⟨x, hx⟩ | hrest
    · dsimp only [sweepStage] at hx
      split at hx
      · exact Or.inl ⟨x, (List.mem_filter.mp hx).1⟩
      · exact Or.inl ⟨x, hx⟩
    · exact thread (by rcases next with rfl | ⟨_, rfl⟩ <;> simp [Pc.job]) (Or.inr hrest)
  | @pass t j pc list =>
    have hj : c.Has j := Or.inr (Or.inr ⟨t, by rw [pc]; rfl⟩)
    refine Or.inl (same ?_)
    rcases h with ⟨x, hx⟩ | hrest
    · exact (Fifo.All.push (P := fun j => c.Has j) (fun x j hx => Or.inl ⟨x, hx⟩) hj) x j' hx
    · exact thread (by simp [Pc.job]) (Or.inr hrest)

/-! ### No other copy -/

variable [Fintype Tid] {g : Duplicate → Option Reception}

/-- A duplicate that a thread holds is nowhere else. -/
structure Alone (cfg : Config) (c : Chain Tid D) (t : Tid) (k : Duplicate) : Prop where
  queued : ∀ x ∈ cfg.lists, ∀ j ∈ c.queued x, j.key ≠ k
  registered : ∀ j ∈ c.registered, j.key ≠ k
  threads : ∀ u, u ≠ t → (c.pc u).holds k = 0
  known : k.1 < c.requests.length

theorem Unique.alone (h : Unique cfg c) (ht : (c.pc t).job = some j) : Alone cfg c t j.key := by
  have hcopies := h j.key
  have hholds : (c.pc t).holds j.key = 1 := by simp [holds_of_job ht]
  have htally := le_tally (·.holds j.key) c.pc t
  simp only [Chain.copies] at hcopies
  refine ⟨fun x hx j' hj' heq => ?_, fun j' hj' heq => ?_, fun u hu => ?_, ?_⟩
  · have hpos := Fifo.count_pos (d := fun i => i.key == j.key) hx hj' (beq_iff_eq.mpr heq)
    split at hcopies <;> omega
  · have hpos : 0 < c.registered.countP (·.key == j.key) := List.countP_pos_iff.mpr ⟨j', hj', beq_iff_eq.mpr heq⟩
    split at hcopies <;> omega
  · have htwo := add_le_tally (·.holds j.key) c.pc hu
    split at hcopies <;> omega
  · split at hcopies
    · assumption
    · omega

/-- A duplicate that its thread lets go of is gone. -/
theorem Unique.let_go (h : Unique cfg c) (hj : (c.pc t).job = some j) {p : Pc D} (hp : p.holds j.key = 0) :
    ({ c with pc := Function.update c.pc t p } : Chain Tid D).copies cfg j.key = 0 := by
  have hone := h j.key
  have hmove := tally_update (·.holds j.key) c.pc t p
  rw [holds_of_job hj, hp] at hmove
  simp only [beq_self_eq_true, if_true] at hmove
  rw [if_pos (h.alone hj).known] at hone
  simp only [Chain.copies] at hone ⊢
  omega

/-- A duplicate that was delivered is nowhere else. -/
def Gone (cfg : Config) (c : Chain Tid D) : Prop :=
  ∀ job ∈ c.delivered, c.copies cfg (StageJob.response job).key = 0 ∧ (StageJob.response job).key.1 < c.requests.length

theorem Gone.step (h : Gone cfg c) (unique : Unique cfg c) (hs : c.Step cfg c') : Gone cfg c' := by
  have old : ∀ job ∈ c.delivered, c'.copies cfg (StageJob.response job).key = 0 ∧
      (StageJob.response job).key.1 < c'.requests.length := by
    intro job hjob
    obtain ⟨hnone, hlt⟩ := h job hjob
    rcases hs.copies_le (StageJob.response job).key with ⟨hreq, hle⟩ | ⟨d, hfresh, hreq, hcopies⟩
    · rw [hreq]
      exact ⟨by omega, hlt⟩
    · have hne : ¬(d.purgeState = (StageJob.response job).key.1 ∧ d.prio ≤ (StageJob.response job).key.2 ∧
          (StageJob.response job).key.2 ≤ d.maxPrio) := fun hd => by omega
      rw [hreq, hcopies, hnone, List.length_append]
      exact ⟨by rw [Pc.holds, if_neg hne], Nat.lt_add_right _ hlt⟩
  cases hs with
  | @deliver t job pc =>
    intro job' hmem
    rcases List.mem_append.mp hmem with hmem | hmem
    · exact old job' hmem
    · rw [List.mem_singleton.mp hmem]
      have hjob : (c.pc t).job = some (.response job) := by rw [pc]; rfl
      exact ⟨unique.let_go hjob rfl, (unique.alone hjob).known⟩
  | _ => exact old

/-! ### Every job holds what was received for it -/

/-- Every job of the chain, and every object given to `done`, is what was received for its duplicate; for duplicates
    that are still to come there is nothing. -/
structure Assembled (g : Duplicate → Option Reception) (c : Chain Tid D) : Prop where
  live : ∀ j, c.Has j → Knows j (g j.key)
  coming : ∀ t d, c.pc t = .dispatching d → ∀ p, d.prio ≤ p → p ≤ d.maxPrio → g (d.purgeState, p) = none
  unknown : ∀ k : Duplicate, c.requests.length ≤ k.1 → g k = none
  delivered : ∀ job ∈ c.delivered, job.jobData.Holds (g (StageJob.response job).key)

omit [Fintype Tid] in
/-- Where a thread that dispatches comes from. -/
theorem Chain.Step.dispatching (hs : c.Step cfg c') {d : Dispatching D} (h : c'.pc t = .dispatching d) :
    c.pc t = .dispatching d ∨ d.purgeState = c.requests.length ∨
      ∃ d₀, c.pc t = .dispatching d₀ ∧ d = { d₀ with i := d₀.i + 1, prio := d₀.prio + 1 } := by
  have other : ∀ {u : Tid} {p : Pc D}, (∀ d, p ≠ .dispatching d) → Function.update c.pc u p t = .dispatching d →
      c.pc t = .dispatching d := by
    intro u p hp hu
    rw [Function.update_apply] at hu
    split at hu
    · exact absurd hu (hp d)
    · exact hu
  cases hs with
  | stay | lose => exact Or.inl h
  | @dispatch u d' pc fresh =>
    dsimp only at h
    rw [Function.update_apply] at h
    split at h
    · cases h
      exact Or.inr (Or.inl fresh)
    · exact Or.inl h
  | @duplicate u d' job pc le dup list =>
    dsimp only at h
    rw [Function.update_apply] at h
    split at h
    · next hu =>
      cases h
      exact Or.inr (Or.inr ⟨d', hu ▸ pc, rfl⟩)
    · exact Or.inl h
  | work works =>
    obtain ⟨_, j', -, hj', -⟩ := works.job
    refine Or.inl (other (fun d hd => ?_) h)
    rw [hd] at hj'
    cases hj'
  | sweep _ next => exact Or.inl (other (by rcases next with rfl | ⟨_, rfl⟩ <;> simp) h)
  | dispatched _ | take _ _ _ | register _ | fire _ _ _ | drop _ | win _ _ | deliver _ | pass _ _ =>
    exact Or.inl (other (by simp) h)

omit [Fintype Tid] in
theorem Assembled.silent (h : Assembled g c) (hs : c.Step cfg c')
    (quiet : ∀ t job, c'.pc t = .reading job → c.pc t = .reading job ∨ c.pc t = .acting (.response job)) :
    Assembled g c' where
  live j' hj' := by
    rcases hs.has quiet hj' with ⟨j, hj, hkey, hknows⟩ | ⟨t, d, job, pc, hle, hdup, rfl⟩
    · rw [hkey]
      exact hknows _ (h.live j hj)
    · obtain ⟨ip, -, rfl⟩ := Option.map_eq_some_iff.mp hdup
      exact h.coming t d pc d.prio le_rfl hle
  coming t d hpc p hlow hhigh := by
    rcases hs.dispatching hpc with hsame | hfresh | ⟨d₀, hd₀, rfl⟩
    · exact h.coming t d hsame p hlow hhigh
    · exact h.unknown _ (by rw [hfresh])
    · exact h.coming t d₀ hd₀ p (Nat.le_of_succ_le hlow) hhigh
  unknown k hk := by
    refine h.unknown k (le_trans ?_ hk)
    cases hs <;> simp
  delivered job hjob := by
    cases hs with
    | @deliver t job' pc =>
      rcases List.mem_append.mp hjob with hjob | hjob
      · exact h.delivered job hjob
      · rw [List.mem_singleton.mp hjob]
        exact h.live (.response job') (Or.inr (Or.inr ⟨t, by rw [pc]; rfl⟩))
    | _ => exact h.delivered job hjob

/-- A thread that has read something for its duplicate goes on with the job that holds it. -/
theorem Assembled.hear (h : Assembled g c) (unique : Unique cfg c) (gone : Gone cfg c)
    (lists : ∀ x, ∀ j ∈ c.queued x, x ∈ cfg.lists) {j' : StageJob D} {p : Pc D} {x : Option Reception}
    (hj : (c.pc t).job = some j) (hp : p.job = some j') (hkey : j'.key = j.key) (hknows : Knows j' x) :
    Assembled (Function.update g j.key x) { c with pc := Function.update c.pc t p } := by
  have alone := unique.alone hj
  have kept : ∀ {k : Duplicate} {P : Option Reception → Prop}, k ≠ j.key → P (g k) → P (Function.update g j.key x k) := by
    intro k P hk hP
    rwa [Function.update_of_ne hk]
  refine ⟨?_, ?_, ?_, ?_⟩
  · rintro i (⟨y, hi⟩ | hi | ⟨u, hi⟩)
    · exact kept (alone.queued y (lists y i hi) i hi) (h.live i (Or.inl ⟨y, hi⟩))
    · exact kept (alone.registered i hi) (h.live i (Or.inr (Or.inl hi)))
    · dsimp only at hi
      rw [Function.update_apply] at hi
      split at hi
      · rw [hp] at hi
        cases hi
        rw [hkey, Function.update_self]
        exact hknows
      · next hu =>
        refine kept (fun heq => ?_) (h.live i (Or.inr (Or.inr ⟨u, hi⟩)))
        have hnone := alone.threads u hu
        rw [holds_of_job hi, heq, if_pos (beq_self_eq_true _)] at hnone
        cases hnone
  · intro u d hu q hlow hhigh
    dsimp only at hu
    rw [Function.update_apply] at hu
    split at hu
    · rw [hu] at hp
      cases hp
    · next hne =>
      refine kept (P := (· = none)) (fun heq => ?_) (h.coming u d hu q hlow hhigh)
      have hnone := alone.threads u hne
      rw [hu, ← heq, Pc.holds, if_pos ⟨rfl, hlow, hhigh⟩] at hnone
      cases hnone
  · intro k hk
    refine kept (P := (· = none)) (fun heq => ?_) (h.unknown k hk)
    exact Nat.not_lt_of_le hk (heq ▸ alone.known)
  · intro job hjob
    refine kept (P := job.jobData.Holds) (fun heq => ?_) (h.delivered job hjob)
    have hcopies := (gone job hjob).1
    have htally := le_tally (·.holds j.key) c.pc t
    have hholds : (c.pc t).holds j.key = 1 := by simp [holds_of_job hj]
    rw [heq, Chain.copies] at hcopies
    omega

omit [DecidableEq Tid] [Fintype Tid] in
theorem Sys.Sound.mem_lists (h : s.Sound cfg) (x : Stage × Priority) (hj : j ∈ s.queued x) : x ∈ cfg.lists := by
  have bounded : ∀ {T : Type} {q : MultiQueue T} {e : Job T → StageJob D} {m p : Priority}, q.Valid ∧ q.maxPrio = m →
      j ∈ (q.jobs p).map e → p ≤ m := by
    rintro T q e m p ⟨valid, rfl⟩ hmem
    by_contra hlt
    simp [MultiQueue.jobs, valid.bounded p (Nat.lt_of_not_le hlt)] at hmem
  obtain ⟨stage, p⟩ := x
  rw [Config.mem_lists]
  cases stage with
  | connect => exact bounded h.connect hj
  | request => exact bounded h.request hj
  | response => exact bounded h.response hj

variable {xs : List (Sys Tid D × Label Tid D)}

/-- In every state of a run, a delivered duplicate is gone and every job holds what the run has received for it. -/
theorem assembled_of_run (run : (system Tid D cfg).Run xs s) :
    Gone cfg s.chain ∧ Assembled (received xs) s.chain := by
  induction run with
  | init =>
    refine ⟨fun job hjob => (by cases hjob), ?_, fun _ _ hpc => (by cases hpc), fun _ _ => rfl,
      fun job hjob => (by cases hjob)⟩
    rintro j (⟨⟨stage, p⟩, hj⟩ | hj | ⟨t, ht⟩)
    · cases stage <;> simp [system, Sys.chain, Sys.queued, MultiQueue.jobs, MultiQueue.new] at hj
    · cases hj
    · cases ht
  | @step xs s s' l run hn ih =>
    obtain ⟨gone, assembled⟩ := ih
    have inv := inv_of_run run
    obtain ⟨-, hstep⟩ := next_chain inv.sound hn
    have lists : ∀ x, ∀ j ∈ s.chain.queued x, x ∈ cfg.lists := fun x j hj => inv.sound.mem_lists x hj
    refine ⟨gone.step inv.unique hstep, ?_⟩
    have hears := next_hears (received xs) hn
    have hsnoc : received (xs ++ [(s, l)]) = receive (received xs) s l := Lts.history_snoc _ _
    rw [hsnoc]
    generalize receive (received xs) s l = g' at hears
    cases hears with
    | @header t job header pc fresh pos goto =>
      subst goto
      have hj : (s.pc t).job = some (.response job) := by rw [pc]; rfl
      exact assembled.hear inv.unique gone lists hj rfl rfl (ResponseData.Holds.begin pos)
    | @bytes t job data pc inside le goto =>
      subst goto
      have hj : (s.pc t).job = some (.response job) := by rw [pc]; rfl
      have hholds : job.jobData.Holds (received xs (StageJob.response job).key) :=
        assembled.live _ (Or.inr (Or.inr ⟨t, hj⟩))
      have hobject : job.jobData.object.isSome = true := by
        have hfilled := inv.filled.threads t
        rwa [show s.chain.pc t = .reading job from pc] at hfilled
      obtain ⟨r, hr⟩ := hholds.received hobject
      refine assembled.hear inv.unique gone lists hj rfl rfl ?_
      rw [hr] at hholds ⊢
      exact hholds.store inside le
    | silent quiet => exact assembled.silent hstep quiet

/-- No more bytes are read than the header announces. -/
theorem received_le_announced (run : (system Tid D cfg).Run xs s) : ∀ {k r}, received xs k = some r → r.header.Ints →
    r.header.Fits → r.bytes.length ≤ r.header.announced := by
  induction run with
  | init => exact fun hr => by cases hr
  | @step xs s s' l run hn ih =>
    intro k r hr hints hfits
    have hears := next_hears (received xs) hn
    have hsnoc : received (xs ++ [(s, l)]) = receive (received xs) s l := Lts.history_snoc _ _
    rw [hsnoc] at hr
    generalize receive (received xs) s l = g' at hears hr
    cases hears with
    | @header t job header pc fresh pos goto =>
      rw [Function.update_apply] at hr
      split at hr
      · cases hr
        exact Nat.zero_le _
      · exact ih hr hints hfits
    | @bytes t job data pc inside le goto =>
      rw [Function.update_apply] at hr
      split at hr
      · obtain ⟨r₀, hr₀, rfl⟩ := Option.map_eq_some_iff.mp hr
        have hj : (s.pc t).job = some (.response job) := by rw [pc]; rfl
        have hholds : job.jobData.Holds (received xs (StageJob.response job).key) :=
          (assembled_of_run run).2.live _ (Or.inr (Or.inr ⟨t, hj⟩))
        rw [hr₀] at hholds
        exact ((hholds.store inside le).fits hints hfits).2.2.1
      · exact ih hr hints hfits
    | silent quiet => exact ih hr hints hfits

end Client
end Dans
