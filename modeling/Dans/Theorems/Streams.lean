import Dans.Lib.Ghost
import Dans.Theorems.Forwarding
import Dans.Theorems.JobLives

/-! The stream of a direction of a pipe, over the whole life of its job. `MonitorCallback` gives the socket to `Monitor`
    again only after a call of `Pipe` that has forwarded what it read; after any other call nothing reads from the socket
    any more. So what is sent is in order and without a gap, also when a `send` fails in the middle. -/

namespace Dans.TcpPipe

/-- `MonitorCallback` goes on to read from the socket after this call of `Pipe`. -/
def Piped.GoesOn (p : Piped) : Prop := 0 < p.ret ∨ p.ret = -PipeResults.tryLater.value

instance (p : Piped) : Decidable p.GoesOn := inferInstanceAs (Decidable (0 < p.ret ∨ p.ret = -PipeResults.tryLater.value))

variable {reads : List ReadResult} {sends : List SendResult} {m : Memory} {p : Piped}

theorem not_sendFails_of_goesOn (h : pipe reads sends m = some p) (goesOn : p.GoesOn) : ¬p.SendFails := by
  obtain ⟨ending, hpipes⟩ := pipes_of_pipeLoop h
  intro hfails
  obtain rfl := hpipes.sendFails_iff.mp hfails
  unfold Piped.GoesOn at goesOn
  rw [hpipes.ret_sendFail] at goesOn
  rcases goesOn with hpos | heq
  · cases hpos
  · cases heq

end Dans.TcpPipe

namespace Dans.ProxyJobs
open Tally
open TcpPipe (Piped)

variable {S W : Type} [DecidableEq S] [DecidableEq W]

/-! ### Who reads from a socket -/

/-- The socket that the worker reads from, or may give to `Monitor` again. -/
def Work.reads : Work → Option (Nat × Side)
  | monitor j side _ | piping j side | report j side _ | adding j side _ _ | rearm j side => some (j, side)
  | _ => none

/-- What leads to a `Pipe` on the socket, now or once its job is connected. -/
def Place.reader (j : Nat) (side : Side) : Place → Nat
  | work c => (if c.awaits side = some j then 1 else 0) + if c.reads = some (j, side) then 1 else 0
  | place => place.token j side

theorem reader_piping (j : Nat) (side : Side) : Place.reader j side (.work (.piping j side)) = 1 := by
  simp [Place.reader, Work.awaits, Work.reads]

theorem reader_bounded (j : Nat) (side : Side) : Bounded (Place.reader j side) fun _ k => if j < k then 1 else 0 := by
  intro n k n' k' old new hturn
  have htoken := token_bounded j side hturn
  cases hturn with
  | start task =>
    cases task <;> simp [Place.reader, Place.token, Task.awaits, Task.monitors, Task.start, Work.awaits, Work.reads]
  | work acts =>
    cases acts with
    | connect next | test next | monitor next | cliClosed next =>
      rcases next with rfl | rfl <;> simp [Place.reader, Work.awaits, Work.reads]
    | monitorIn | monitorOut =>
      cases side <;> simp [Place.reader, Place.token, Work.awaits, Work.reads, Closure.awaits, Closure.monitors]
    | _ => simp [Place.reader, Place.token, Work.awaits, Work.reads, Closure.awaits, Closure.monitors]
  | pipe j' side' next => rcases next with rfl | rfl | ⟨units, rfl⟩ <;> simp [Place.reader, Work.awaits, Work.reads]
  | fetch cbs => simpa [Place.reader, Function.comp_def] using htoken
  | schedule acts => simpa [Place.reader, Function.comp_def] using htoken
  | _ => exact htoken

/-- The call of `Pipe` on the socket that a step is. -/
def Sys.pipeOf (s : Sys S W) (j : Nat) (side : Side) : Label S W → Option Piped
  | .pipe w reads sends m => if s.work w = .piping j side then TcpPipe.pipe reads sends m else none
  | _ => none

/-- The calls of `Pipe` on the socket, in their order. -/
def pipes (xs : List (Sys S W × Label S W)) (j : Nat) (side : Side) : List Piped :=
  xs.flatMap fun x => (x.1.pipeOf j side x.2).toList

/-- The bytes that were read from the socket, and those that were sent to the other one. -/
def received (xs : List (Sys S W × Label S W)) (j : Nat) (side : Side) : List UInt8 := (pipes xs j side).flatMap (·.read)

def sent (xs : List (Sys S W × Label S W)) (j : Nat) (side : Side) : List UInt8 :=
  (pipes xs j side).flatMap fun p => TcpPipe.accepted p.calls

section Runs
variable [Fintype S] [Fintype W] {s s' : Sys S W} {l : Label S W} {xs : List (Sys S W × Label S W)} {j : Nat} {side : Side}

theorem reader_le (run : (system S W).Run xs s) (j : Nat) (side : Side) :
    s.weight (Place.reader j side) ≤ if j < s.jobCount then 1 else 0 := by
  refine weight_le_of_run (b := fun _ k => if j < k then 1 else 0) (reader_bounded j side) ?_ run
  simp [Sys.weight, system, tally, Place.reader, Place.token, Loop.running?, Sched.awaits, Work.awaits, Work.reads,
    Closure.awaits, Closure.monitors]

omit [DecidableEq S] [DecidableEq W] in
theorem reader_pos {w : W} (h : s.work w = .piping j side) : 1 ≤ s.weight (Place.reader j side) := by
  have hle := le_tally (fun c => Place.reader j side (.work c)) s.work w
  rw [h, reader_piping] at hle
  unfold Sys.weight
  omega

/-- Once nobody reads from the socket of a job, nobody ever does. -/
theorem Step.unread (hs : Step s l s') (hlt : j < s.jobCount) (h : s.weight (Place.reader j side) = 0) :
    j < s'.jobCount ∧ s'.weight (Place.reader j side) = 0 := by
  obtain ⟨old, new, hturn, hweight⟩ := hs.turn
  have hle := hweight (Place.reader j side)
  have hbound := reader_bounded j side hturn
  have hlt' := hlt.trans_le hs.jobCount_le
  simp only [hlt, hlt', if_true] at hbound
  exact ⟨hlt', by omega⟩

/-- A call of `Pipe` that does not go on is the last one that leads to reading from the socket. -/
theorem Step.stops {p : Piped} (hs : Step s l s') (hp : s.pipeOf j side l = some p) (hstop : ¬p.GoesOn)
    (hone : s.weight (Place.reader j side) ≤ 1) : s'.weight (Place.reader j side) = 0 := by
  cases hs with
  | @pipe w j' side' reads sends m p' work pipe =>
    simp only [Sys.pipeOf, work] at hp
    split at hp
    · next heq =>
      cases heq
      cases hp.symm.trans pipe
      have hwork := tally_update (fun c => Place.reader j side (.work c)) s.work w
        (.piped j side ((s.jobs j).soc side) p.ret)
      have hnone : Place.reader j side (.work (.piped j side ((s.jobs j).soc side) p.ret)) = 0 := by
        obtain ⟨hpos, hlater⟩ := not_or.mp hstop
        unfold Work.piped
        split
        · split <;> rfl
        · next hneg =>
          rw [if_pos (by omega)]
          rfl
      rw [hnone, work, reader_piping] at hwork
      simp only [Sys.weight] at hone ⊢
      omega
    · cases hp
  | fault fails => cases fails <;> cases hp
  | _ => cases hp

/-- The calls of `Pipe` on a socket all go on, except for the last one at most. -/
theorem pipes_of_run (run : (system S W).Run xs s) (j : Nat) (side : Side) :
    (∀ p ∈ pipes xs j side, p.GoesOn) ∨ (j < s.jobCount ∧ s.weight (Place.reader j side) = 0) ∧
      ∃ ps p, pipes xs j side = ps ++ [p] ∧ ∀ p ∈ ps, p.GoesOn := by
  induction run with
  | init => exact Or.inl fun p hp => by cases hp
  | @step xs s s' l run hn ih =>
    have hs := (next_step hn).2
    have hsnoc : pipes (xs ++ [(s, l)]) j side = pipes xs j side ++ (s.pipeOf j side l).toList := by simp [pipes]
    rw [hsnoc]
    cases hp : s.pipeOf j side l with
    | none =>
      rw [Option.toList_none, List.append_nil]
      exact ih.imp_right fun ⟨hunread, hpipes⟩ => ⟨hs.unread hunread.1 hunread.2, hpipes⟩
    | some p =>
      have hreads : 1 ≤ s.weight (Place.reader j side) := by
        cases l with
        | pipe w reads sends m =>
          dsimp only [Sys.pipeOf] at hp
          split at hp
          · exact reader_pos ‹_›
          · cases hp
        | _ => cases hp
      rcases ih with hall | ⟨⟨-, hunread⟩, -⟩
      · by_cases hgoes : p.GoesOn
        · refine Or.inl fun p' hp' => ?_
          rcases List.mem_append.mp hp' with hp' | hp'
          · exact hall p' hp'
          · rwa [List.mem_singleton.mp hp']
        · have hle := reader_le run j side
          have hlt : j < s.jobCount := by
            by_contra hge
            rw [if_neg hge] at hle
            omega
          rw [if_pos hlt] at hle
          have hzero := hs.stops hp hgoes hle
          exact Or.inr ⟨⟨hlt.trans_le hs.jobCount_le, hzero⟩, pipes xs j side, p, rfl, hall⟩
      · omega

/-- Over the whole life of a job, what is sent in a direction is what was read, in order and without a gap, as far as it
    goes, and all of it unless the last `Pipe` failed to send, where no `send` would block. And whatever the results of the
    calls, once a `Pipe` has found its socket closed or has failed, the socket is not read from again. -/
theorem stream_in_order (run : (system S W).Run xs s) (j : Nat) (side : Side) :
    (∀ p ∈ (pipes xs j side).dropLast, p.GoesOn) ∧
    ((∀ p ∈ pipes xs j side, p.NoAgain) → sent xs j side <+: received xs j side ∧
      (sent xs j side = received xs j side ∨ ∃ p ∈ (pipes xs j side).getLast?, p.SendFails)) := by
  have hpipe : ∀ p ∈ pipes xs j side, ∃ reads sends m, TcpPipe.pipe reads sends m = some p := fun p hp => by
    obtain ⟨x, -, hx⟩ := List.mem_flatMap.mp hp
    rw [Option.mem_toList] at hx
    cases hl : x.2 with
    | pipe w reads sends m =>
      rw [hl, Sys.pipeOf] at hx
      split at hx
      · exact ⟨reads, sends, m, hx⟩
      · cases hx
    | _ =>
      rw [hl] at hx
      cases hx
  -- A call that goes on has sent all it has read.
  have hwhole : ∀ ps : List Piped, (∀ p ∈ ps, p ∈ pipes xs j side ∧ p.GoesOn ∧ p.NoAgain) →
      (ps.flatMap fun p => TcpPipe.accepted p.calls) = ps.flatMap (·.read) := fun ps hps => by
    refine List.flatMap_congr fun p hp => ?_
    obtain ⟨hmem, hgoes, hagain⟩ := hps p hp
    obtain ⟨reads, sends, m, hpipe⟩ := hpipe p hmem
    exact ((TcpPipe.pipe_forwards hpipe).1 hagain).whole (TcpPipe.not_sendFails_of_goesOn hpipe hgoes)
  rcases pipes_of_run run j side with hall | ⟨-, ps, p, hsplit, hall⟩
  · refine ⟨fun p hp => hall p (List.dropLast_subset _ hp), fun hagain => ?_⟩
    have heq : sent xs j side = received xs j side := hwhole _ fun p hp => ⟨hp, hall p hp, hagain p hp⟩
    exact ⟨heq ▸ List.prefix_rfl, Or.inl heq⟩
  · refine ⟨by rwa [hsplit, List.dropLast_concat], fun hagain => ?_⟩
    have hmem : ∀ p' ∈ ps, p' ∈ pipes xs j side := fun p' hp' => by rw [hsplit]; exact List.mem_append_left _ hp'
    have hlast : p ∈ pipes xs j side := by rw [hsplit]; exact List.mem_append_right _ (List.mem_singleton_self p)
    obtain ⟨reads, sends, m, hpipe⟩ := hpipe p hlast
    have hforwards := (TcpPipe.pipe_forwards hpipe).1 (hagain p hlast)
    have heq := hwhole ps fun p' hp' => ⟨hmem p' hp', hall p' hp', hagain p' (hmem p' hp')⟩
    have hsent : sent xs j side = (ps.flatMap (·.read)) ++ TcpPipe.accepted p.calls := by simp [sent, hsplit, heq]
    have hreceived : received xs j side = (ps.flatMap (·.read)) ++ p.read := by simp [received, hsplit]
    rw [hsent, hreceived]
    refine ⟨(List.prefix_append_right_inj _).mpr hforwards.stream, ?_⟩
    by_cases hfails : p.SendFails
    · exact Or.inr ⟨p, by simp [hsplit], hfails⟩
    · exact Or.inl (by rw [hforwards.whole hfails])

end Runs

/-- The client's bytes come in two parts, and the server goes away in the middle of the second one. -/
theorem stream_in_order_sendFail : ∃ xs s, (system Unit Unit).Run xs s ∧ received xs 0 .client = [7, 8, 9] ∧
    sent xs 0 .client = [7, 8] ∧ sent xs 0 .client <+: received xs 0 .client := by
  obtain ⟨xs, s, run, hs⟩ := Lts.run_of_shown_any (system Unit Unit) (fun s l => (s.pipeOf 0 .client l).toList)
    (openPipe () () ++ readClient () ++ [.pipe () [.bytes [7], .error TcpPipe.EAGAIN] [.sent 1] fun _ => 0] ++
      List.replicate 4 (.work ()) ++ readClient () ++ [.pipe () [.bytes [8, 9]] [.sent 1, .error 32] fun _ => 0])
    (fun ps _ => decide ((∀ p ∈ ps, p.NoAgain) ∧ ps.flatMap (·.read) = [7, 8, 9] ∧
      (ps.flatMap fun p => TcpPipe.accepted p.calls) = [7, 8])) (by decide)
  obtain ⟨hagain, hreceived, hsent⟩ := of_decide_eq_true hs
  exact ⟨xs, s, run, hreceived, hsent, ((stream_in_order run 0 .client).2 hagain).1⟩

end Dans.ProxyJobs
