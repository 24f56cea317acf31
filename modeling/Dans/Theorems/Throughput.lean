import Dans.Lib.Exclusion
import Dans.Theorems.Forwarding
import Dans.Theorems.JobLives

/-! The sizes that the throttler is given. `MonitorCallback` reports what `Pipe` returns: the number of bytes where `Pipe`
    has read until it would block, with at least one byte, and no `send` would block. In the other cases nothing is
    reported, or `-TRY_LATER` is; and `total_completed` is read and written by the workers of both directions. Where each
    call of `Pipe` reports what it sent, and no two reports for a job overlap, the size of a job is the number of bytes
    that `send` has accepted for it. -/

namespace Dans.TcpPipe
open MachineInt

def SendResult.isSent : SendResult → Bool
  | sent _ => true
  | error _ => false

/-- `Pipe` reads something and then would block, and `send` takes all of it; or it fails before `send` takes anything. -/
def accounted (reads : List ReadResult) (sends : List SendResult) : Bool :=
  match reads with
  | .bytes _ :: reads =>
    decide (reads.find? (!·.isBytes) = some (.error EAGAIN)) && sends.all (·.isSent) ||
      (sends.find? (· ≠ .error EAGAIN)).any (·.hard)
  | .error errno :: _ => errno != EAGAIN
  | .closed :: _ | [] => true

variable {m : Memory} {chunk : List UInt8} {reads : List ReadResult} {sends : List SendResult} {left start total : Int}
  {round : Round} {ending : Ending} {p : Piped}

theorem Sends.result_mem (h : Sends m chunk left start total sends round) : ∀ call ∈ round.calls, call.result ∈ sends := by
  induction h with
  | fail _ | last _ =>
    intro call hcall
    rw [List.mem_singleton.mp hcall]
    exact List.mem_cons_self
  | again _ ih | more _ _ ih =>
    rw [Round.calls_cons]
    exact List.forall_mem_cons.mpr ⟨List.mem_cons_self, fun call hcall => List.mem_cons_of_mem _ (ih call hcall)⟩

theorem Pipes.result_mem (h : Pipes reads sends m total ending p) : ∀ call ∈ p.calls, call.result ∈ sends := by
  induction h with
  | wouldBlock | readFail _ | closed => simp
  | sendFail _ round => exact round.result_mem
  | round _ round _ ih =>
    intro call hcall
    rcases List.mem_append.mp hcall with hcall | hcall
    · exact round.result_mem call hcall
    · exact round.leaves (ih call hcall)

theorem Pipes.noAgain (h : Pipes reads sends m total ending p) (hsent : ∀ r ∈ sends, r.isSent = true) : p.NoAgain := by
  intro call hcall
  have hresult := hsent _ (h.result_mem call hcall)
  simp only [SendCall.isAgain, decide_eq_false_iff_not]
  intro hagain
  rw [hagain] at hresult
  cases hresult

/-- Where `send` takes all of what it is given, `Pipe` ends as `read` does. -/
theorem Pipes.wouldBlock_of_find (h : Pipes reads sends m total ending p) (hsent : ∀ r ∈ sends, r.isSent = true)
    (hfind : reads.find? (!·.isBytes) = some (.error EAGAIN)) : ending = .wouldBlock := by
  have hstopped := h.stopped
  unfold stop at hstopped
  rw [hfind] at hstopped
  cases ending with
  | wouldBlock => rfl
  | closed => cases hstopped
  | readFail =>
    obtain ⟨errno, heq, hard⟩ := hstopped
    cases heq
    exact absurd rfl hard
  | sendFail =>
    obtain ⟨r, hr, hhard⟩ := h.hard
    have hresult := hsent r hr
    cases r with
    | sent _ => cases hhard
    | error _ => cases hresult

/-- A chunk of which nothing is sent. -/
theorem Sends.failed_of_find (h : Sends m chunk left start total sends round)
    (hfind : (sends.find? (· ≠ .error EAGAIN)).any (·.hard) = true) :
    ∃ calls, round = .failed calls ∧ accepted calls = [] := by
  induction h with
  | fail _ => exact ⟨_, rfl, rfl⟩
  | again _ ih =>
    obtain ⟨calls, rfl, hnil⟩ := ih (by simpa using hfind)
    exact ⟨_, rfl, by rw [accepted_cons, hnil]; rfl⟩
  | last _ | more _ _ _ => simp [SendResult.hard] at hfind

/-- A call of `Pipe` that reads something. -/
theorem accounted_bytes (h : accounted (.bytes chunk :: reads) sends = true) :
    reads.find? (!·.isBytes) = some (.error EAGAIN) ∧ (∀ r ∈ sends, r.isSent = true) ∨
      (sends.find? (· ≠ .error EAGAIN)).any (·.hard) = true := by
  simp only [accounted, Bool.or_eq_true, Bool.and_eq_true, List.all_eq_true] at h
  rcases h with ⟨hfind, hsent⟩ | hfind
  · exact Or.inl ⟨of_decide_eq_true hfind, hsent⟩
  · exact Or.inr hfind

/-- What `Pipe` returns where it accounts for what it sent. -/
theorem accounted_cases (hp : pipe reads sends m = some p) (h : accounted reads sends = true) :
    0 < p.ret ∧ p.ret = (accepted p.calls).length ∨
      accepted p.calls = [] ∧ (p.ret = 0 ∨ p.ret = -PipeResults.sendFail.value) := by
  obtain ⟨ending, hpipes⟩ := pipes_of_pipeLoop hp
  cases hpipes with
  | wouldBlock => cases h
  | readFail _ | closed => exact Or.inr ⟨rfl, Or.inl rfl⟩
  | sendFail nonempty round =>
    rcases accounted_bytes h with ⟨-, hsent⟩ | hfind
    · obtain ⟨r, hr, hhard⟩ := round.leaves
      have hresult := hsent r hr
      cases r with
      | sent _ => cases hhard
      | error _ => cases hresult
    · obtain ⟨calls, hcalls, hnil⟩ := round.failed_of_find hfind
      cases hcalls
      exact Or.inr ⟨hnil, Or.inr rfl⟩
  | @round chunk reads _ rest _ _ total' calls _ p nonempty round more =>
    rcases accounted_bytes h with ⟨hfind, hsent⟩ | hfind
    · have hall := Pipes.round nonempty round more
      cases hall.wouldBlock_of_find hsent hfind
      have hlen := hall.length_of_noAgain (by simp) (hall.noAgain hsent)
      have hret := hall.ret (by simp)
      have hpos : (0 : Int) < (chunk ++ p.read).length := by
        rw [List.length_append]
        omega
      rw [Int.zero_add, Ending.ret, if_neg hpos.ne'] at hret
      exact Or.inl ⟨hret ▸ hpos, by rw [hret, hlen]⟩
    · obtain ⟨calls, hcalls, -⟩ := round.failed_of_find hfind
      cases hcalls

end Dans.TcpPipe

namespace Dans.ProxyJobs
open MachineInt Tally Exclusion

variable {S W : Type}

/-! ### Counts -/

/-- The number that the worker is about to add to `total_completed` of the job. -/
def Work.pending (j : Nat) : Work → Nat
  | report j' _ n | adding j' _ n _ => if j' = j then n else 0
  | _ => 0

theorem Work.pending_eq_zero {j : Nat} {c : Work} (h : c.job ≠ some j) : c.pending j = 0 := by
  cases c with
  | report j' _ _ | adding j' _ _ _ => exact if_neg fun heq => h (by rw [heq]; rfl)
  | _ => rfl

theorem Work.piped_report {j n : Nat} {side : Side} {soc ret : Int} (h : Work.piped j side soc ret = .report j side n) :
    0 < ret ∨ ret = -TcpPipe.PipeResults.tryLater.value := by
  unfold Work.piped at h
  split at h
  · split at h <;> cases h
  · next hneg =>
    split at h
    · cases h
    · rcases lt_or_ge ret 0 with hlt | hge
      · exact Or.inr (not_not.mp fun hne => hneg ⟨hlt, hne⟩)
      · exact Or.inl (by omega)

theorem Work.pending_piped {j : Nat} {side : Side} {soc : Int} {reads : List TcpPipe.ReadResult}
    {sends : List TcpPipe.SendResult} {m : TcpPipe.Memory} {p : TcpPipe.Piped} (hp : TcpPipe.pipe reads sends m = some p)
    (h : TcpPipe.accounted reads sends = true) :
    (Work.piped j side soc p.ret).pending j = (TcpPipe.accepted p.calls).length % 2 ^ 32 := by
  rcases TcpPipe.accounted_cases hp h with ⟨hpos, hret⟩ | ⟨hnil, hret⟩
  · have hpiped : Work.piped j side soc p.ret = .report j side (asUnsigned p.ret) := by
      unfold Work.piped
      rw [if_neg (by omega), if_neg (by omega)]
    rw [hpiped, Work.pending, if_pos rfl, hret, asUnsigned]
    omega
  · rw [hnil]
    rcases Work.piped_cases j side soc p.ret with heq | heq | ⟨n, heq⟩
    · rw [heq]
      rfl
    · rw [heq]
      rfl
    · rcases hret with hret | hret <;> rw [hret] at heq <;> rcases Work.piped_report heq with hlt | hlater
      · cases hlt
      · cases hlater
      · cases hlt
      · cases hlater

/-- What a step does to the counts of a job. -/
inductive Counts [Fintype W] (s : Sys S W) (j : Nat) (l : Label S W) (s' : Sys S W) : Prop where
  | same (total : (s'.jobs j).totalCompleted = (s.jobs j).totalCompleted)
      (accepted : (s'.jobs j).accepted = (s.jobs j).accepted)
      (pending : tally (Work.pending j) s'.work = tally (Work.pending j) s.work)
  | accept (le : s.jobCount ≤ j) (new : ∃ p soc id, s'.jobs j = .new p soc id) (work : s'.work = s.work)
  | pipe {w : W} {side : Side} {reads : List TcpPipe.ReadResult} {sends : List TcpPipe.SendResult} {m : TcpPipe.Memory}
      {p : TcpPipe.Piped} (label : l = .pipe w reads sends m) (work : s.work w = .piping j side)
      (pipe : TcpPipe.pipe reads sends m = some p) (total : (s'.jobs j).totalCompleted = (s.jobs j).totalCompleted)
      (accepted : (s'.jobs j).accepted = (s.jobs j).accepted + (TcpPipe.accepted p.calls).length)
      (pending : tally (Work.pending j) s'.work =
        tally (Work.pending j) s.work + (Work.piped j side ((s.jobs j).soc side) p.ret).pending j)
  | add {w : W} {side : Side} {n old : Nat} (work : s.work w = .adding j side n old) (next : s'.work w = .rearm j side)
      (total : (s'.jobs j).totalCompleted = (old + n) % 2 ^ 32) (accepted : (s'.jobs j).accepted = (s.jobs j).accepted)
      (pending : tally (Work.pending j) s'.work + n = tally (Work.pending j) s.work)

section Steps
variable [Fintype S] [Fintype W] [DecidableEq S] [DecidableEq W]
variable {s s' : Sys S W} {l : Label S W} {j : Nat}

theorem Step.counts (hs : Step s l s') (j : Nat) : Counts s j l s' := by
  have hwork : ∀ {w : W} {c : Work}, c.pending j = (s.work w).pending j →
      tally (Work.pending j) (Function.update s.work w c) = tally (Work.pending j) s.work := by
    intro w c hc
    have htally := tally_update (Work.pending j) s.work w c
    omega
  cases hs with
  | first _ _ _ | cliClosed _ _ _ | purge _ _ | destroy _ _ _ _ _ =>
    exact .same (field_update (·.totalCompleted) rfl) (field_update (·.accepted) rfl) rfl
  | @accept cb p soc _ =>
    by_cases heq : j = s.jobCount
    · exact .accept (Nat.le_of_eq heq.symm) ⟨p, soc, some s.heap.length, by simp [heq]⟩ rfl
    · exact .same (by simp [heq]) (by simp [heq]) rfl
  | @schedule t j' a _ acts _ =>
    generalize s.sched t = c at acts
    refine .same (field_update (·.totalCompleted) ?_) (field_update (·.accepted) ?_) rfl <;> cases acts <;> rfl
  | @start w task rest idle _ =>
    refine .same rfl rfl (hwork ?_)
    rw [idle]
    cases task <;> rfl
  | @work w j' a job acts _ =>
    generalize hc : s.work w = c at job acts
    cases acts with
    | @add _ side n old =>
      cases job
      rcases eq_or_ne j' j with rfl | hne
      · have htally := tally_update (Work.pending j') s.work w (.rearm j' side)
        rw [hc, Work.pending, if_pos rfl] at htally
        exact .add hc (by simp) (by simp [Sys.perform]) (by simp [Sys.perform]) htally
      · refine .same (by simp [Sys.perform, hne.symm]) (by simp [Sys.perform, hne.symm]) (hwork ?_)
        rw [hc]
        exact (if_neg hne).symm
    | connect next | test next | monitor next | cliClosed next =>
      refine .same (field_update (·.totalCompleted) rfl) (field_update (·.accepted) rfl) (hwork ?_)
      rw [hc]
      rcases next with rfl | rfl <;> rfl
    | @setShutdown _ _ side _ | @shutdown _ _ side =>
      refine .same (field_update (·.totalCompleted) ?_) (field_update (·.accepted) ?_) (hwork (by rw [hc]; rfl)) <;>
        cases side <;> rfl
    | monitorIn | monitorOut | delete | clear | report | rearm | leave | alone _ =>
      exact .same (field_update (·.totalCompleted) rfl) (field_update (·.accepted) rfl) (hwork (by rw [hc]; rfl))
  | @pipe w j' side reads sends m p work pipe =>
    rcases eq_or_ne j' j with rfl | hne
    · have htally := tally_update (Work.pending j') s.work w (.piped j' side ((s.jobs j').soc side) p.ret)
      rw [work] at htally
      exact .pipe rfl work pipe (by simp) (by simp) htally
    · refine .same (field_update (·.totalCompleted) rfl) (by simp [hne.symm]) (hwork ?_)
      rw [work, Work.pending_eq_zero fun hj => hne (Work.piped_job hj)]
      rfl
  | _ => exact .same rfl rfl rfl

/-! ### Sizes -/

/-- All the sizes that `AddStat` was given and `Runner` has not forgotten. -/
def Sys.sizes (s : Sys S W) : List (Nat × Int) :=
  s.primarySizes ++ s.secondarySizes ++ s.stats.flatMap fun x => x.primarySizes ++ x.secondarySizes

theorem Step.sizes (hs : Step s l s') {x : Nat × Int} (h : x ∈ s'.sizes) : x ∈ s.sizes ∨
    ∃ j, j < s.jobCount ∧ j ∉ s.queue ∧ ¬s.Alive j ∧ x = (j, asInt (s.jobs j).totalCompleted) := by
  cases hs with
  | @destroy j primary secondary lt queue _ dead stat =>
    have hnew : x ∈ s.sizes ∨ x = (j, asInt (s.jobs j).totalCompleted) := by
      have hprimary : (s.addStat j (s.jobs j)).primarySizes = primary := congrArg Sys.primarySizes stat
      have hsecondary : (s.addStat j (s.jobs j)).secondarySizes = secondary := congrArg Sys.secondarySizes stat
      simp only [Sys.sizes, Sys.close, Sys.setJob, ← hprimary, ← hsecondary, List.mem_append] at h ⊢
      by_cases hp : (s.jobs j).priority = 0 <;> simp only [Sys.addStat, hp, if_true, if_false, List.mem_append,
        List.mem_singleton] at h <;> tauto
    rcases hnew with hold | hnew
    · exact Or.inl hold
    · exact Or.inr ⟨j, lt, queue, dead, hnew⟩
  | clearSizes =>
    left
    simp only [Sys.sizes, List.nil_append] at h ⊢
    exact List.mem_append_right _ h
  | report =>
    left
    simp only [Sys.sizes, List.nil_append, List.flatMap_append, List.flatMap_cons, List.flatMap_nil, List.append_nil,
      List.mem_append] at h ⊢
    tauto
  | _ => exact Or.inl h

/-! ### Runs that account for what is sent -/

/-- The worker has read `total_completed` of the job, and is to write it. -/
def Work.adds : Work → Option Nat
  | adding j _ _ _ => some j
  | _ => none

/-- Each call of `Pipe` for the job accounts for what it sends, and no two calls of `ReportThroughput` for it overlap. -/
def Sys.accounted (s : Sys S W) (j : Nat) : Label S W → Bool
  | .work w =>
    match s.work w with
    | .report j' _ _ => j' != j || decide (∀ w', (s.work w').adds ≠ some j)
    | _ => true
  | .pipe w reads sends _ =>
    match s.work w with
    | .piping j' _ => j' != j || TcpPipe.accounted reads sends
    | _ => true
  | _ => true

/-- What was added and what is to be added for the job is what `send` has accepted. -/
structure Exact (s : Sys S W) (j : Nat) : Prop where
  one : One (fun c => c.adds = some j) s.work
  old : ∀ w side n old, s.work w = .adding j side n old → old = (s.jobs j).totalCompleted
  lt : (s.jobs j).totalCompleted < 2 ^ 32
  sum : ((s.jobs j).totalCompleted + tally (Work.pending j) s.work) % 2 ^ 32 = (s.jobs j).accepted % 2 ^ 32
  sizes : ∀ size, (j, size) ∈ s.sizes → j < s.jobCount ∧ ¬s.Reaches j ∧ size = asInt (s.jobs j).totalCompleted

theorem Step.adds (hs : Step s l s') {w : W} (h : (s'.work w).adds = some j) : (s.work w).adds = some j ∨
    l = .work w ∧ ∃ side n, s.work w = .report j side n := by
  have hinner : (s'.work w).inner = true := by
    generalize s'.work w = c at h
    cases c <;> cases h
    rfl
  rcases hs.work_inner hinner with heq | ⟨j', a, label, job, acts, heq, -, -⟩
  · exact Or.inl (heq ▸ h)
  · rw [heq] at h
    generalize hc : s.work w = c at job acts
    cases acts with
    | @report _ side n =>
      cases h
      exact Or.inr ⟨label, side, n, rfl⟩
    | connect next | test next | monitor next | cliClosed next => rcases next with rfl | rfl <;> cases h
    | monitorIn | monitorOut | delete | clear | add | rearm | leave | alone _ | setShutdown _ | shutdown => cases h

theorem Exact.one_step (h : Exact s j) (hok : s.accounted j l = true) (hs : Step s l s') :
    One (fun c => c.adds = some j) s'.work := by
  refine h.one.of_step (g := fun w => l = .work w) (fun w w' label label' => ?_) fun w hw => ?_
  · rw [label] at label'
    cases label'
    rfl
  · rcases hs.adds hw with hw | ⟨rfl, side, n, hw⟩
    · exact Or.inl hw
    · exact Or.inr ⟨rfl, by simpa [Sys.accounted, hw] using hok⟩

omit [Fintype S] [DecidableEq S] [DecidableEq W] in
/-- Nothing is to be added for a job that nobody comes to. -/
theorem pending_of_not_reaches (h : ¬s.Reaches j) : tally (Work.pending j) s.work = 0 :=
  Finset.sum_eq_zero fun w _ => Work.pending_eq_zero fun hw => h (Or.inr (Or.inr (Or.inr (Or.inr ⟨w, hw⟩))))

variable {xs : List (Sys S W × Label S W)}

theorem Exact.old_step (run : (system S W).Run xs s) (h : Exact s j) (hs : Step s l s') {w : W} {side : Side} {n old : Nat}
    (hw : s'.work w = .adding j side n old) : old = (s'.jobs j).totalCompleted := by
  rcases hs.work_inner (by rw [hw]; rfl) with heq | ⟨j', a, label, job, acts, heq, hjob, -⟩
  · rw [heq] at hw
    have hold := h.old w side n old hw
    cases hs.counts j with
    | same total _ _ | pipe _ _ _ total _ _ => rw [total, hold]
    | accept le _ _ =>
      have hlt := lt_of_reaches run (Or.inr (Or.inr (Or.inr (Or.inr ⟨w, by rw [hw]; rfl⟩))))
      exact absurd hlt (Nat.not_lt.mpr le)
    | @add w' _ _ _ work next _ _ _ =>
      -- The worker that has just written was the only one that had read.
      cases h.one w w' (by rw [hw]; rfl) (by rw [work]; rfl)
      rw [heq, hw] at next
      cases next
  · rw [heq] at hw
    generalize hc : s.work w = c at job acts
    cases acts with
    | report =>
      cases job
      cases hw
      rw [hjob]
    | connect next | test next | monitor next | cliClosed next => rcases next with rfl | rfl <;> cases hw
    | monitorIn | monitorOut | delete | clear | add | rearm | leave | alone _ | setShutdown _ | shutdown => cases hw

theorem Exact.sum_step (run : (system S W).Run xs s) (h : Exact s j) (hok : s.accounted j l = true) (hs : Step s l s') :
    ((s'.jobs j).totalCompleted + tally (Work.pending j) s'.work) % 2 ^ 32 = (s'.jobs j).accepted % 2 ^ 32 := by
  have hsum := h.sum
  cases hs.counts j with
  | same total accepted pending => rw [total, accepted, pending, hsum]
  | accept le new work =>
    obtain ⟨p, soc, id, new⟩ := new
    rw [new, work, pending_of_not_reaches fun hreaches => absurd (lt_of_reaches run hreaches) (Nat.not_lt.mpr le)]
    rfl
  | pipe label work pipe total accepted pending =>
    subst label
    rw [total, accepted, pending, Work.pending_piped pipe (by simpa [Sys.accounted, work] using hok)]
    omega
  | add work _ total accepted pending =>
    rw [total, accepted, h.old _ _ _ _ work]
    omega

/-- The figures of a job that nobody comes to are final. -/
theorem Step.final (hs : Step s l s') (hlt : j < s.jobCount) (h : ¬s.Reaches j) :
    ¬s'.Reaches j ∧ (s'.jobs j).totalCompleted = (s.jobs j).totalCompleted := by
  have hwork : ∀ {w : W}, (s.work w).job ≠ some j := fun hw => h (Or.inr (Or.inr (Or.inr (Or.inr ⟨_, hw⟩))))
  constructor
  · intro hreaches
    rcases hs.reaches hreaches with hbefore | ⟨rfl, -⟩
    · exact h hbefore
    · exact Nat.lt_irrefl _ hlt
  · cases hs.counts j with
    | same total _ _ => exact total
    | accept le _ _ => exact absurd hlt (Nat.not_lt.mpr le)
    | pipe _ work _ _ _ _ => exact absurd (by rw [work]; rfl) hwork
    | add work _ _ _ _ => exact absurd (by rw [work]; rfl) hwork

theorem Exact.lt_step (h : Exact s j) (hs : Step s l s') : (s'.jobs j).totalCompleted < 2 ^ 32 := by
  cases hs.counts j with
  | same total _ _ | pipe _ _ _ total _ _ => exact total ▸ h.lt
  | accept _ new _ =>
    obtain ⟨p, soc, id, new⟩ := new
    rw [new]
    exact Nat.two_pow_pos 32
  | add _ _ total _ _ =>
    rw [total]
    exact Nat.mod_lt _ (Nat.two_pow_pos 32)

theorem Exact.sizes_step (run : (system S W).Run xs s) (h : Exact s j) (hs : Step s l s') {size : Int}
    (hsize : (j, size) ∈ s'.sizes) :
    j < s'.jobCount ∧ ¬s'.Reaches j ∧ size = asInt (s'.jobs j).totalCompleted := by
  have hbefore : j < s.jobCount ∧ ¬s.Reaches j ∧ size = asInt (s.jobs j).totalCompleted := by
    rcases hs.sizes hsize with hold | ⟨j', hlt, hqueue, hdead, heq⟩
    · exact h.sizes size hold
    · obtain ⟨rfl, heq⟩ := Prod.mk.inj heq
      exact ⟨hlt, not_reaches_of_dead (known_of_run run) hqueue hdead, heq⟩
  obtain ⟨hlt, hreaches, hsize⟩ := hbefore
  obtain ⟨hreaches', htotal⟩ := hs.final hlt hreaches
  exact ⟨Nat.lt_of_lt_of_le hlt hs.jobCount_le, hreaches', by rw [htotal, hsize]⟩

theorem exact_of_run (run : (system S W).Run xs s) (hok : Lts.Meets (fun s l => s.accounted j l = true) xs) :
    Exact s j := by
  refine run.invariant (P := (Exact · j)) hok ?_ fun run h hok hn => ?_
  · refine ⟨fun _ _ hw => (by cases hw), fun _ _ _ _ hw => (by cases hw), Nat.two_pow_pos 32, ?_,
      fun _ hsize => (by cases hsize)⟩
    simp [system, tally, Work.pending, PipeJob.new]
  · have hs := (next_step hn).2
    exact ⟨h.one_step hok hs, fun _ _ _ _ hw => h.old_step run hs hw, h.lt_step hs, h.sum_step run hok hs,
      fun _ hsize => h.sizes_step run hs hsize⟩

/-- In a run that accounts for what is sent for a job, its size is the number of bytes that `send` has accepted for it. -/
theorem sizes_accepted (run : (system S W).Run xs s) (hok : Lts.Meets (fun s l => s.accounted j l = true) xs) {size : Int}
    (hsize : (j, size) ∈ s.sizes) (hlt : (s.jobs j).accepted < 2 ^ 31) : size = (s.jobs j).accepted := by
  have hexact := exact_of_run run hok
  obtain ⟨-, hreaches, hasInt⟩ := hexact.sizes size hsize
  have hsum := hexact.sum
  have htotal := hexact.lt
  rw [pending_of_not_reaches hreaches, Nat.add_zero] at hsum
  have heq : (s.jobs j).totalCompleted = (s.jobs j).accepted := by omega
  rw [hasInt, heq, asInt_of_lt hlt]

end Steps

/-- A socket is closed, and its `MonitorCallback` shuts down the other one. -/
def hangUp (side : Side) (w : W) : List (Label S W) :=
  [.wait [.pipe 0 side], .invoke false false 0, .finish, .start w, .work w, .work w, .work w]

/-- The job is destroyed, and its size reported. -/
def endPipe : List (Label S W) := [.destroy 0, .report]

/-- A byte of the client is forwarded, and the pipe is closed. -/
theorem sizes_accepted_forwarded : ∃ xs s, (system Unit Unit).Run xs s ∧
    Lts.Meets (fun s l => s.accounted 0 l = true) xs ∧
    (0, 1) ∈ s.sizes ∧ (s.jobs 0).accepted = 1 ∧ (1 : Int) = (s.jobs 0).accepted := by
  obtain ⟨xs, s, run, -, hs⟩ := Lts.run_of_exec_any ((system Unit Unit).restrict fun s l => s.accounted 0 l = true)
    (openPipe () () ++ readClient () ++ [.pipe () [.bytes [7], .error TcpPipe.EAGAIN] [.sent 1] fun _ => 0] ++
      List.replicate 4 (.work ()) ++ hangUp .client () ++ hangUp .server () ++ endPipe)
    (fun s => decide ((0, 1) ∈ s.sizes ∧ (s.jobs 0).accepted = 1)) (by decide)
  obtain ⟨run, hok⟩ := run.of_restrict
  obtain ⟨hsize, haccepted⟩ := of_decide_eq_true hs
  exact ⟨xs, s, run, hok, hsize, haccepted, sizes_accepted run hok hsize (by rw [haccepted]; decide)⟩

/-- Nothing is to be read when `Pipe` is called: `-TRY_LATER` is reported. -/
def blocksAtOnce : List (Label Unit Unit) :=
  openPipe () () ++ readClient () ++ [.pipe () [.error TcpPipe.EAGAIN] [] fun _ => 0] ++ List.replicate 4 (.work ()) ++
    hangUp .client () ++ hangUp .server () ++ endPipe

/-- The client closes behind a byte: it is forwarded, and not reported. -/
def closesBehindByte : List (Label Unit Unit) :=
  openPipe () () ++ readClient () ++ [.pipe () [.bytes [7], .closed] [.sent 1] fun _ => 0] ++ List.replicate 2 (.work ()) ++
    hangUp .server () ++ endPipe

/-- A byte is forwarded in each direction, and both workers read `total_completed` before one of them writes it. -/
def reportsAtOnce : List (Label Unit Bool) :=
  openPipe () true ++
    [.wait [.pipe 0 .client, .pipe 0 .server], .invoke true false 0, .finish, .invoke true false 0, .finish, .start false,
      .start true, .work false, .work true, .pipe false [.bytes [7], .error TcpPipe.EAGAIN] [.sent 1] fun _ => 0,
      .pipe true [.bytes [8], .error TcpPipe.EAGAIN] [.sent 1] fun _ => 0, .work false, .work true] ++
    List.replicate 3 (.work false) ++ List.replicate 3 (.work true) ++ hangUp .client false ++ hangUp .server true ++ endPipe

theorem sizes_not_accepted :
    (∃ xs s, (system Unit Unit).Run xs s ∧ xs.map Prod.snd = blocksAtOnce ∧ (0, -2) ∈ s.sizes ∧ (s.jobs 0).accepted = 0) ∧
    (∃ xs s, (system Unit Unit).Run xs s ∧ xs.map Prod.snd = closesBehindByte ∧ (0, 0) ∈ s.sizes ∧ (s.jobs 0).accepted = 1) ∧
    ∃ xs s, (system Unit Bool).Run xs s ∧ xs.map Prod.snd = reportsAtOnce ∧ (0, 1) ∈ s.sizes ∧ (s.jobs 0).accepted = 2 := by
  refine ⟨?_, ?_, ?_⟩
  · obtain ⟨xs, s, run, hls, hs⟩ := Lts.run_of_exec_any (system Unit Unit) blocksAtOnce
      (fun s => decide ((0, -2) ∈ s.sizes ∧ (s.jobs 0).accepted = 0)) (by decide)
    exact ⟨xs, s, run, hls, of_decide_eq_true hs⟩
  · obtain ⟨xs, s, run, hls, hs⟩ := Lts.run_of_exec_any (system Unit Unit) closesBehindByte
      (fun s => decide ((0, 0) ∈ s.sizes ∧ (s.jobs 0).accepted = 1)) (by decide)
    exact ⟨xs, s, run, hls, of_decide_eq_true hs⟩
  · obtain ⟨xs, s, run, hls, hs⟩ := Lts.run_of_exec_any (system Unit Bool) reportsAtOnce
      (fun s => decide ((0, 1) ∈ s.sizes ∧ (s.jobs 0).accepted = 2)) (by decide)
    exact ⟨xs, s, run, hls, of_decide_eq_true hs⟩

end Dans.ProxyJobs
