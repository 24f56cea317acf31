import Dans.ProxyJobs
import Dans.Theorems.Forwarding

/-! What `MonitorCallback` makes of the value that `Pipe` returns. A byte count, the negated results and a negated socket
    share one `int`; `READ_FAIL` is 0, so a failed `read` is taken for the end of the stream. -/

namespace Dans.TcpPipe
open MachineInt

/-! ### The event that ends a call -/

/-- A `read` reached the end of the stream. -/
def Piped.Closes (p : Piped) (reads : List ReadResult) : Prop := ¬p.SendFails ∧ stop reads = some .closed

/-- A `read` failed with an error other than would-block. -/
def Piped.ReadFails (p : Piped) (reads : List ReadResult) : Prop :=
  ¬p.SendFails ∧ ∃ errno, stop reads = some (.error errno) ∧ errno ≠ EAGAIN

/-- A `read` would block. -/
def Piped.Blocks (p : Piped) (reads : List ReadResult) : Prop := ¬p.SendFails ∧ stop reads = some (.error EAGAIN)

variable {reads : List ReadResult} {sends : List SendResult} {m : Memory} {total : Int} {ending : Ending} {p : Piped}

/-- Each ending is one of the four events, and no other. -/
theorem Pipes.events (h : Pipes reads sends m total ending p) :
    (p.SendFails ↔ ending = .sendFail) ∧ (p.Closes reads ↔ ending = .closed) ∧
      (p.ReadFails reads ↔ ending = .readFail) ∧ (p.Blocks reads ↔ ending = .wouldBlock) := by
  have hsend := h.sendFails_iff
  have hstopped := h.stopped
  unfold Piped.Closes Piped.ReadFails Piped.Blocks
  cases ending with
  | sendFail => simp [hsend]
  | wouldBlock | closed =>
    have hstop : stop reads = _ := hstopped
    simp [hsend, hstop]
  | readFail =>
    obtain ⟨errno, hstop, hard⟩ := hstopped
    simp [hsend, hstop, hard]

end Dans.TcpPipe

namespace Dans.ProxyJobs
open MachineInt TcpPipe

/-! ### The branches of `MonitorCallback` -/

/-- The branches behind `Pipe`, by what they log: an error of `read`, an error of `send`, a connection closed by its peer,
    and bytes piped, where the socket is monitored again. -/
inductive MonitorBranch where
  | errorReading
  | errorSending
  | closedConnection
  | piped
  deriving DecidableEq

def MonitorBranch.of (soc bytesPiped : Int) : MonitorBranch :=
  if bytesPiped < 0 ∧ bytesPiped ≠ -PipeResults.tryLater.value then
    if bytesPiped = -soc then .errorReading else .errorSending
  else if bytesPiped = 0 then .closedConnection
  else .piped

/-- What the worker does in a branch. -/
def MonitorBranch.work (job : Nat) (side : Side) (bytesPiped : Int) : MonitorBranch → Work
  | errorReading | closedConnection => .shutOther .monitor job side
  | errorSending => .idle
  | piped => .report job side (asUnsigned bytesPiped)

theorem Work.piped_eq_branch (job : Nat) (side : Side) (soc bytesPiped : Int) :
    Work.piped job side soc bytesPiped = (MonitorBranch.of soc bytesPiped).work job side bytesPiped := by
  unfold Work.piped MonitorBranch.of
  repeat' split
  all_goals rfl

/-- The branch that an ending leads to: a failed `read` is not told from the end of the stream. -/
def MonitorBranch.taken : Ending → MonitorBranch
  | .wouldBlock => piped
  | .readFail | .closed => closedConnection
  | .sendFail => errorSending

variable {reads : List ReadResult} {sends : List SendResult} {m : Memory} {ending : Ending} {p : Piped}

theorem MonitorBranch.of_pipes (h : Pipes reads sends m 0 ending p) {soc : Int} (hsoc : 3 ≤ soc) :
    MonitorBranch.of soc p.ret = taken ending := by
  cases ending with
  | sendFail =>
    have hne : ¬(-PipeResults.sendFail.value = -soc) := by
      simp only [PipeResults.value]
      omega
    rw [h.ret_sendFail, of, if_pos (by decide), if_neg hne, taken]
  | readFail | closed =>
    rw [h.ret (by simp)]
    rfl
  | wouldBlock =>
    rw [h.ret (by simp), Int.zero_add, Ending.ret]
    split
    · rfl
    · next hne => rw [of, if_neg (by omega), if_neg hne, taken]

/-- What the branches claim: each is taken for the event that it logs, and a failure or a `read` that would block leads to
    its own. -/
structure MonitorBranch.Matches (branch : MonitorBranch) (p : Piped) (reads : List ReadResult) : Prop where
  closed : branch = .closedConnection → p.Closes reads
  readFails : branch = .errorReading ↔ p.ReadFails reads
  sendFails : branch = .errorSending ↔ p.SendFails
  blocks : branch = .piped ↔ p.Blocks reads

/-- The branch matches the event that ended `Pipe` unless that was a `read` that failed, and then never: the callback takes
    the branch of a closed connection. -/
theorem monitorCallback_matches (h : pipe reads sends m = some p) {soc : Int} (hsoc : 3 ≤ soc) :
    ((MonitorBranch.of soc p.ret).Matches p reads ↔ ¬p.ReadFails reads) ∧
    (p.ReadFails reads → MonitorBranch.of soc p.ret = .closedConnection ∧ ¬p.Closes reads) := by
  obtain ⟨ending, hpipes⟩ := pipes_of_pipeLoop h
  obtain ⟨hsend, hcloses, hfails, hblocks⟩ := hpipes.events
  have hwrong : p.ReadFails reads → MonitorBranch.of soc p.ret = .closedConnection ∧ ¬p.Closes reads := by
    rw [MonitorBranch.of_pipes hpipes hsoc, hfails, hcloses]
    rintro rfl
    exact ⟨rfl, by simp⟩
  refine ⟨⟨fun hmatches hread => ?_, fun hread => ?_⟩, hwrong⟩
  · obtain ⟨hbranch, hopen⟩ := hwrong hread
    exact hopen (hmatches.closed hbranch)
  · rw [MonitorBranch.of_pipes hpipes hsoc]
    cases ending with
    | readFail => exact absurd (hfails.mpr rfl) hread
    | wouldBlock | closed | sendFail =>
      exact ⟨by simp [hcloses, MonitorBranch.taken], by simp [hfails, MonitorBranch.taken],
        by simp [hsend, MonitorBranch.taken], by simp [hblocks, MonitorBranch.taken]⟩

/-- Two bytes are sent in two parts, and the next `read` would block. -/
theorem monitorCallback_matches_two : ∃ p, pipe [.bytes [1, 2], .error EAGAIN] [.sent 1, .sent 1] (fun _ => 0) = some p ∧
    MonitorBranch.of 3 p.ret = .piped ∧ (MonitorBranch.of 3 p.ret).Matches p [.bytes [1, 2], .error EAGAIN] := by
  have h : pipe [.bytes [1, 2], .error EAGAIN] [.sent 1, .sent 1] (fun _ => 0) =
      some ⟨2, [1, 2], [⟨0, 2, [1, 2], .sent 1, [1]⟩, ⟨1, 1, [1, 2], .sent 1, [2]⟩]⟩ := by decide
  refine ⟨_, h, rfl, (monitorCallback_matches h (Int.le_refl 3)).1.mpr ?_⟩
  rintro ⟨-, errno, hstop, hard⟩
  cases hstop
  exact hard rfl

/-- `ECONNRESET` of the first `read`: `Pipe` returns `-READ_FAIL`, which is 0. -/
theorem monitorCallback_reset : ∃ p, pipe [.error 104] [] (fun _ => 0) = some p ∧ p.ReadFails [.error 104] ∧
    MonitorBranch.of 3 p.ret = .closedConnection ∧ ¬p.Closes [.error 104] := by
  refine ⟨⟨0, [], []⟩, rfl, ⟨by simp [Piped.SendFails], 104, rfl, by decide⟩, rfl, ?_⟩
  rintro ⟨-, hstop⟩
  cases hstop

end Dans.ProxyJobs
